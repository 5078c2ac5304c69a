import Nssf.Dispatcher.Envelopes
import Nssf.OAuth.Machine

/-! The header lines of a delivery. The lines with the correlation id are free of control bytes
whatever id comes in; the bearer line carries the text that the token endpoint sent. -/

namespace Nssf

open Base Run OAuth

def headerByte (c : Char) : Bool := decide (0x20 ≤ c.toNat) && c.toNat != 0x7f

def cleanLine (line : String) : Bool := line.toList.all headerByte

section lines

theorem cleanLine_append (a b : String) : cleanLine (a ++ b) = (cleanLine a && cleanLine b) := by
  simp only [cleanLine, String.toList_append, List.all_append]

theorem clean_append {a b : String} (ha : cleanLine a = true) (hb : cleanLine b = true) :
    cleanLine (a ++ b) = true := by
  rw [cleanLine_append, ha, hb]
  rfl

theorem cleanLine_ofList (cs : List Char) : cleanLine (String.ofList cs) = cs.all headerByte := by
  simp only [cleanLine, String.toList_ofList]

theorem cleanLine_of_isSafe {id : String} (h : correlationIdIsSafe id = true) :
    cleanLine id = true := by
  simp only [correlationIdIsSafe, Bool.and_eq_true] at h
  exact h.2

theorem headerByte_digitChar {n : ℕ} (h : n < 16) : headerByte (Nat.digitChar n) = true := by
  have hall : ∀ n < 16, headerByte (Nat.digitChar n) = true := by decide
  exact hall n h

theorem all_headerByte_hex16 (n : ℕ) : (hex16 n).all headerByte = true := by
  apply List.all_eq_true.2
  intro c hc
  simp only [hex16, List.mem_map] at hc
  obtain ⟨i, -, rfl⟩ := hc
  exact headerByte_digitChar (Nat.mod_lt _ (by decide))

theorem toNat_le_of_le {c d : Char} (h : c ≤ d) : c.toNat ≤ d.toNat := h

theorem headerByte_tolower {c : Char} (h : isXdigit c = true) :
    headerByte (tolower c) = true := by
  have hrange : 0x30 ≤ c.toNat ∧ c.toNat ≤ 0x66 := by
    simp only [isXdigit, Binary64.isDigit, Bool.or_eq_true, Bool.and_eq_true,
      decide_eq_true_eq] at h
    rcases h with (⟨hl, hr⟩ | ⟨hl, hr⟩) | ⟨hl, hr⟩
    all_goals
      have hl := toNat_le_of_le hl
      have hr := toNat_le_of_le hr
      simp only [Char.reduceToNat] at hl hr
      omega
  have hall : ∀ n < 0x67, 0x30 ≤ n → headerByte (tolower (Char.ofNat n)) = true := by
    decide +kernel
  have hc := hall c.toNat (by omega) hrange.1
  rwa [Char.ofNat_toNat] at hc

theorem all_headerByte_toTraceId (src : String) : (toTraceId src).all headerByte = true := by
  simp only [toTraceId, List.all_append, Bool.and_eq_true]
  constructor
  · apply List.all_eq_true.2
    intro c hc
    obtain ⟨x, hx, rfl⟩ := List.mem_map.1 (List.mem_of_mem_take hc)
    exact headerByte_tolower (List.mem_filter.1 hx).2
  · apply List.all_eq_true.2
    intro c hc
    rw [List.eq_of_mem_replicate hc]
    decide

/-- The fixed parts of the lines. -/
theorem lineNames_clean : ∀ name ∈ ["Content-Type: application/json",
    "3gpp-Sbi-Correlation-Info: ", "traceparent: 00-", "-", "-01", "Authorization: Bearer "],
    cleanLine name = true := by
  decide +kernel

theorem cleanLine_correlationLine {id : String} (h : cleanLine id = true) :
    cleanLine (correlationLine id) = true := by
  have hname := lineNames_clean "3gpp-Sbi-Correlation-Info: " (by simp)
  exact clean_append hname h

theorem cleanLine_traceparentLine (id : String) : cleanLine (traceparentLine id) = true := by
  have hname := lineNames_clean "traceparent: 00-" (by simp)
  have hdash := lineNames_clean "-" (by simp)
  have hflags := lineNames_clean "-01" (by simp)
  have htrace : cleanLine (String.ofList (toTraceId id)) = true :=
    (cleanLine_ofList _).trans (all_headerByte_toTraceId id)
  have hparent : cleanLine (String.ofList ((toTraceId id).take 16)) = true := by
    rw [cleanLine_ofList]
    apply List.all_eq_true.2
    intro c hc
    exact List.all_eq_true.1 (all_headerByte_toTraceId id) c (List.mem_of_mem_take hc)
  exact clean_append (clean_append (clean_append (clean_append hname htrace) hdash) hparent) hflags

theorem cleanLine_bearerLine (token : String) :
    cleanLine (bearerLine token) = cleanLine token := by
  have hname := lineNames_clean "Authorization: Bearer " (by simp)
  exact (cleanLine_append _ _).trans (by rw [hname, Bool.true_and])

/-- The id that is sent is a safe one, or one that is made up here. -/
theorem effectiveCorrelation_clean {inbound stored : Option String} {id : String} {e e' : Env}
    (h : effectiveCorrelation inbound stored e = .ok (id, e')) : cleanLine id = true := by
  have hgen (h : genCorrelationHex e = .ok (id, e')) : cleanLine id = true := by
    simp only [genCorrelationHex] at h
    obtain ⟨c, e₁, -, h⟩ := Prog.bind_eq_ok.1 h
    obtain ⟨t, e₂, -, h⟩ := Prog.bind_eq_ok.1 h
    cases h
    rw [cleanLine_ofList, List.all_append, all_headerByte_hex16, all_headerByte_hex16]
    rfl
  simp only [effectiveCorrelation] at h
  cases hid : inbound.or stored with
  | none =>
    rw [hid] at h
    exact hgen h
  | some given =>
    simp only [hid] at h
    by_cases hsafe : correlationIdIsSafe given = true
    · rw [if_pos hsafe] at h
      cases h
      exact cleanLine_of_isSafe hsafe
    · rw [if_neg hsafe] at h
      exact hgen h

end lines

/-- Where the bearer of a call that makes `n` token requests comes from: the cache, or the answer
to the last request. -/
def bearerSource? (ob : Outbound) (e : Env) : ℕ → Option String
  | 0 => ob.cachedToken
  | n + 1 => (e.token.get n).body.bind fun body => jsonString? body "access_token"

section source

variable {ob ob' : Outbound} {e e' : Env}

theorem bearerSource?_congr {e₁ : Env} (h : e₁.token = e.token) (n : ℕ) :
    bearerSource? ob e₁ n = bearerSource? ob e n := by
  cases n with
  | zero => rfl
  | succ n => simp only [bearerSource?, h]

theorem ensureFresh_source {scope : String}
    (h : ensureFresh ob scope e = .ok ((true, ob'), e')) :
    ∃ n, posts e'.effects = posts e.effects + n ∧ ob'.cachedToken = bearerSource? ob e n := by
  rw [ensureFresh_eq] at h
  split_ifs at h with hfresh
  · cases h
    exact ⟨0, rfl, rfl⟩
  · obtain ⟨-, -, -, hgot⟩ := acquireLoop_settled h
    obtain ⟨k, body, token, hcount, hanswer, htoken, hcached⟩ := hgot rfl
    have hread : (clockRead e).token.get k = e.token.get k := rfl
    refine ⟨k + 1, hcount, ?_⟩
    simp only [bearerSource?, ← hread, hanswer, Option.bind_some, htoken, hcached]

theorem acquireOwnedCopyLocked_source {scope token : String}
    (h : acquireOwnedCopyLocked ob scope e = .ok ((some token, ob'), e')) :
    ∃ n, posts e'.effects = posts e.effects + n ∧ bearerSource? ob e n = some token := by
  have hcached := (acquireOwnedCopyLocked_bounded h).2 token rfl
  simp only [acquireOwnedCopyLocked] at h
  obtain ⟨⟨got, ob₁⟩, e₁, hensure, h⟩ := Prog.bind_eq_ok.1 h
  cases got with
  | false => cases h
  | true =>
    obtain ⟨n, hcount, hsource⟩ := ensureFresh_source hensure
    cases htoken : ob₁.cachedToken with
    | none =>
      simp only [htoken] at h
      cases h
    | some held =>
      simp only [htoken] at h
      obtain ⟨copy, e₂, hcopy, h⟩ := Prog.bind_eq_ok.1 h
      have hd := ((gives_allocated (F := fun _ => True) held).of_ok hcopy).2
      cases h
      refine ⟨n, ?_, hsource.symm.trans hcached⟩
      rw [hd.effects_eq, hcount]

/-- The bearer line that a call appends carries the token from its source. -/
theorem attachBearer_source {override : Option String} {headers headers' : List String}
    (h : attachBearer ob override headers e = .ok ((.ok headers', ob'), e')) :
    ∃ n token, posts e'.effects = posts e.effects + n ∧ bearerSource? ob e n = some token ∧
      headers' = headers ++ [bearerLine token] := by
  simp only [attachBearer] at h
  split_ifs at h with hon
  · obtain ⟨⟨owned, ob₁⟩, e₁, hown, h⟩ := Prog.bind_eq_ok.1 h
    cases owned with
    | none => cases h
    | some token =>
      obtain ⟨n, hcount, hsource⟩ := acquireOwnedCopyLocked_source hown
      obtain ⟨line, e₂, hline, h⟩ := Prog.bind_eq_ok.1 h
      have hdrawn := ((gives_alloc (F := fun _ => True)).of_ok hline).2
      cases line with
      | false => cases h
      | true =>
        obtain ⟨node, e₃, hnode, h⟩ := Prog.bind_eq_ok.1 h
        have hdrawn₃ := ((gives_alloc (F := fun _ => True)).of_ok hnode).2
        cases node with
        | false => cases h
        | true =>
          cases h
          refine ⟨n, token, ?_, hsource, rfl⟩
          rw [hdrawn₃.effects_eq, hdrawn.effects_eq, hcount]
  · cases h

/-- The lines of a claimed row: clean ones, and behind them the bearer of an enabled handle. -/
def Lines (oauth : Option Outbound) (e e' : Env) (headers : List String) : Prop :=
  ∃ base bearer, headers = base ++ bearer ∧ (∀ line ∈ base, cleanLine line = true) ∧
    ((∀ ob, oauth = some ob → ob.cfg.enabled = false) ∧ bearer = [] ∨
      ∃ ob n token, oauth = some ob ∧ ob.cfg.enabled = true ∧
        posts e'.effects = posts e.effects + n ∧ bearerSource? ob e n = some token ∧
        bearer = [bearerLine token])

theorem baseHeaders_clean {corr : String} {headers : List String}
    (h : baseHeaders corr e = .ok (some headers, e')) (hcorr : cleanLine corr = true) :
    ∀ line ∈ headers, cleanLine line = true := by
  have htype := lineNames_clean "Content-Type: application/json" (by simp)
  rw [baseHeaders_eq h]
  intro line hline
  simp only [List.mem_cons, List.not_mem_nil, or_false] at hline
  rcases hline with rfl | rfl | rfl
  · exact htype
  · exact cleanLine_correlationLine hcorr
  · exact cleanLine_traceparentLine corr

theorem calm_effectiveCorrelation (inbound stored : Option String) :
    Prog.Within Calm (effectiveCorrelation inbound stored) := by
  have hgen : Prog.Within Calm genCorrelationHex := by
    apply calm_bind
    · intro e n e' h
      cases h
      exact ⟨rfl, rfl⟩
    · intro n
      apply calm_bind
      · intro e t e' h
        cases h
        exact ⟨rfl, rfl⟩
      · intro t
        exact calm_pure _
  simp only [effectiveCorrelation]
  split
  · split_ifs
    · exact calm_pure _
    · exact hgen
  · exact hgen

theorem calm_baseHeaders (corr : String) : Prog.Within Calm (baseHeaders corr) := by
  have halloc : Prog.Within Calm alloc := calm_of_gives (gives_alloc (F := fun _ => True))
  apply calm_bind halloc
  intro b
  cases b with
  | false => exact calm_pure none
  | true =>
    simp only [if_true, appendCorrelation]
    split_ifs
    · exact calm_pure none
    · apply calm_bind halloc
      intro b
      cases b with
      | false => exact calm_pure none
      | true =>
        apply calm_bind halloc
        intro b
        cases b with
        | false => exact calm_pure none
        | true => exact calm_pure _

theorem calm_memDequeue (q : RetryStore) : Prog.Within Calm q.memDequeue := by
  apply calm_bind
  · intro e t e' h
    cases h
    exact ⟨rfl, rfl⟩
  · intro now
    cases q.pickDue now with
    | none => exact calm_pure _
    | some p => exact calm_of_gives (RetryStore.gives_claimRow_item p.1 p.2)

theorem prepare_lines {d d' : Dispatcher} {item : RetryItem} {inbound : Option String}
    {headers : List String} (h : d.prepare item inbound e = .ok ((.ok headers, d'), e')) :
    Lines d.oauth e e' headers := by
  simp only [Dispatcher.prepare] at h
  obtain ⟨corr, e₁, hcorr, h⟩ := Prog.bind_eq_ok.1 h
  simp only [buildHeaders] at h
  obtain ⟨base, e₂, hbase, h⟩ := Prog.bind_eq_ok.1 h
  have hcalm := (calm_effectiveCorrelation _ _ _ _ _ hcorr).trans (calm_baseHeaders _ _ _ _ hbase)
  cases base with
  | none => cases h
  | some base =>
    have hclean := baseHeaders_clean hbase (effectiveCorrelation_clean hcorr)
    have hplain (hoff : ∀ ob, d.oauth = some ob → ob.cfg.enabled = false) :
        Lines d.oauth e e' base :=
      ⟨base, [], (List.append_nil _).symm, hclean, Or.inl ⟨hoff, rfl⟩⟩
    cases hd : d.oauth with
    | none =>
      simp only [hd] at h
      cases h
      rw [← hd]
      exact hplain (by simp [hd])
    | some ob =>
      simp only [hd] at h
      obtain ⟨⟨st, ob'⟩, e₃, hattach, h⟩ := Prog.bind_eq_ok.1 h
      cases st with
      | abort => cases h
      | noAttach =>
        cases h
        rw [← hd]
        apply hplain
        intro ob₁ hob₁
        rw [hd] at hob₁
        cases hob₁
        exact attachBearer_noAttach hattach
      | ok attached =>
        cases h
        obtain ⟨n, token, hcount, hsource, rfl⟩ := attachBearer_source hattach
        have hon : ob.cfg.enabled = true := by
          by_contra hoff
          simp only [attachBearer, if_neg hoff] at hattach
          cases hattach
        refine ⟨base, [bearerLine token], rfl, hclean,
          Or.inr ⟨ob, n, token, rfl, hon, ?_, ?_, rfl⟩⟩
        · rw [hcount, hcalm.2]
        · rw [← hsource, bearerSource?_congr hcalm.1]

/-- The lines are clean where the text behind the bearer is. -/
theorem Lines.clean_iff {oauth : Option Outbound} {headers : List String} {n : ℕ}
    (h : Lines oauth e e' headers) (hn : posts e'.effects = posts e.effects + n) :
    (∀ line ∈ headers, cleanLine line = true) ↔
      ∀ ob token, oauth = some ob → ob.cfg.enabled = true → bearerSource? ob e n = some token →
        cleanLine token = true := by
  obtain ⟨base, bearer, rfl, hbase, hbearer⟩ := h
  have hall : (∀ line ∈ base ++ bearer, cleanLine line = true) ↔
      ∀ line ∈ bearer, cleanLine line = true := by
    simp only [List.mem_append, or_imp, forall_and]
    exact and_iff_right hbase
  rw [hall]
  rcases hbearer with ⟨hoff, rfl⟩ | ⟨ob, m, token, rfl, hon, hm, hsource, rfl⟩
  · constructor
    · intro _ ob token hob hon
      rw [hoff ob hob] at hon
      cases hon
    · intro _ line hline
      cases hline
  · obtain rfl : m = n := by omega
    simp only [List.mem_singleton, forall_eq, cleanLine_bearerLine]
    constructor
    · intro htoken ob₁ token₁ hob₁ _ hsource₁
      cases hob₁
      rw [hsource] at hsource₁
      cases hsource₁
      exact htoken
    · intro hsources
      exact hsources ob token rfl hon hsource

end source

section dispatch

variable {d d' : Dispatcher} {q q' : RetryStore} {inbound : Option String} {e e' : Env}
  {result : DispatchResult} {new : List Effect}

/-- The one POST of a claimed row has the lines that were prepared for it. -/
theorem dispatchItem_lines {item : RetryItem}
    (h : dispatchItem d q item inbound e = .ok ((result, d', q'), e'))
    (hnew : e'.effects = e.effects ++ new) {uri body : String} {headers : List String}
    (hpost : .post uri body headers ∈ new) :
    ∃ e₁, Lines d.oauth e e₁ headers ∧ posts e₁.effects = posts e.effects + posts new := by
  have hquiet {q₁ q₂ : RetryStore} {op : StoreOp} {e₁ e₂ : Env}
      (hresolve : q₁.resolve item.id op e₁ = .ok (q₂, e₂))
      (htoken : Env.Emits tokenEffect e e₁) (heffects : e₂.effects = e.effects ++ new) : False := by
    obtain ⟨tokens, htokens, hall⟩ := htoken
    have hsilent := (resolve_emitting (P := fun _ => False) q₁ item.id op).silent _ _ _ hresolve
    rw [hsilent, htokens, List.append_cancel_left_eq] at heffects
    exact hall _ (heffects ▸ hpost)
  simp only [dispatchItem] at h
  by_cases hadmits : d.admits item = true
  · rw [if_pos hadmits] at h
    obtain ⟨⟨built, d₁⟩, e₁, hprepare, h⟩ := Prog.bind_eq_ok.1 h
    have htoken := (prepare_emitting _ _ _).within e _ e₁ hprepare
    cases built with
    | abort =>
      obtain ⟨q₁, e₂, hresolve, h⟩ := Prog.bind_eq_ok.1 h
      cases h
      exact (hquiet hresolve htoken hnew).elim
    | failed =>
      obtain ⟨q₁, e₂, hresolve, h⟩ := Prog.bind_eq_ok.1 h
      cases h
      exact (hquiet hresolve htoken hnew).elim
    | ok lines =>
      obtain ⟨x, e₂, hdeliver, h⟩ := Prog.bind_eq_ok.1 h
      generalize afterDelivery item x = decision at h
      obtain ⟨op, r⟩ := decision
      obtain ⟨q₁, e₃, hresolve, h⟩ := Prog.bind_eq_ok.1 h
      cases h
      obtain ⟨tokens, htokens, hall⟩ := htoken
      have hsilent := (resolve_emitting (P := fun _ => False) q item.id op).silent _ _ _ hresolve
      rw [hsilent, deliver_effects hdeliver, htokens, List.append_assoc,
        List.append_cancel_left_eq] at hnew
      have hlines : headers = lines := by
        rw [← hnew, List.mem_append] at hpost
        rcases hpost with hpost | hpost
        · exact (hall _ hpost).elim
        · rw [List.mem_singleton] at hpost
          injection hpost
      refine ⟨e₁, hlines ▸ prepare_lines hprepare, ?_⟩
      rw [htokens, ← hnew, posts_append, posts_append]
      rfl
  · rw [if_neg hadmits] at h
    obtain ⟨q₁, e₂, hresolve, h⟩ := Prog.bind_eq_ok.1 h
    cases h
    exact (hquiet hresolve (.refl e) hnew).elim

/-- Every line that is handed to the transport is clean just where the text behind the bearer
is: the cached token, or the one in the answer that the call asked for last. -/
theorem dispatched_lines_clean_iff
    (h : dispatchPending d q inbound e = .ok ((result, d', q'), e'))
    (hnew : e'.effects = e.effects ++ new) {uri body : String} {headers : List String}
    (hpost : .post uri body headers ∈ new) :
    (∀ line ∈ headers, cleanLine line = true) ↔
      ∀ ob token, d.oauth = some ob → ob.cfg.enabled = true →
        bearerSource? ob e (posts new) = some token → cleanLine token = true := by
  simp only [dispatchPending] at h
  obtain ⟨⟨got, q₁⟩, e₁, hdequeue, h⟩ := Prog.bind_eq_ok.1 h
  have hcalm := calm_memDequeue q _ _ _ hdequeue
  have hnothing (he : e'.effects = e₁.effects) : False := by
    rw [he, hcalm.2, List.self_eq_append_right] at hnew
    rw [hnew] at hpost
    cases hpost
  cases got with
  | none =>
    cases h
    exact (hnothing rfl).elim
  | error =>
    cases h
    exact (hnothing rfl).elim
  | claimed item =>
    rw [← hcalm.2] at hnew
    obtain ⟨e₂, hlines, hcount⟩ := dispatchItem_lines h hnew hpost
    rw [hlines.clean_iff hcount]
    simp only [bearerSource?_congr hcalm.1]

end dispatch

section sample

def callbackEnvelope : String :=
  "\x7b\"callbackUri\":\"https://amf/cb\",\"body\":\x7b\x7d\x7d"

/-- A queue with one row that is due. -/
def callbackQueue : RetryStore := ⟨[⟨1, "s", callbackEnvelope, 0, false, .pending, 0⟩], 2⟩

theorem enqueue_callbackQueue :
    ∃ e', retryStoreNewInmemory.enqueue (some "s") (some "https://amf/cb") (some "\x7b\x7d") none
      .quiet = .ok ((true, callbackQueue), e') := by
  have hresult : Prog.result? (retryStoreNewInmemory.enqueue (some "s") (some "https://amf/cb")
      (some "\x7b\x7d") none) .quiet = some (true, callbackQueue) := by decide +kernel
  exact Prog.exists_of_result? hresult

def answering (token : String) : Env :=
  { Env.quiet with token := Stream'.const ⟨0, 200, some ("\x7b\"access_token\":\"" ++ token ++
    "\",\"token_type\":\"Bearer\",\"expires_in\":3600\x7d")⟩ }

/-- The lines of that row when the endpoint answers with the token. -/
def sentLines (token : String) : List String :=
  ["Content-Type: application/json",
    "3gpp-Sbi-Correlation-Info: 00000000000000000000000000000001",
    "traceparent: 00-00000000000000000000000000000001-0000000000000000-01", bearerLine token]

def sentEffects (token : String) : List Effect :=
  [tokenRequest (sampleOutbound true).cfg "nnrf-disc nnrf-nfm",
    .post "https://amf/cb" "\x7b\x7d" (sentLines token)]

def brokenToken : String := "t\x0d\nX-Role: admin"

theorem sentEffects_seen : ∀ token ∈ ["t", brokenToken], Prog.seen? (fun _ e => e.effects)
    (dispatchPending (notificationDispatcherNew (some (sampleOutbound true))) callbackQueue none)
    (answering token) = some (sentEffects token) := by
  decide +kernel

theorem dispatched_lines_clean_granted : ∃ result d' q' e',
    dispatchPending (notificationDispatcherNew (some (sampleOutbound true))) callbackQueue none
      (answering "t") = .ok ((result, d', q'), e') ∧
    e'.effects = sentEffects "t" ∧ ∀ line ∈ sentLines "t", cleanLine line = true := by
  obtain ⟨⟨result, d', q'⟩, e', hrun, heffects⟩ :=
    Prog.exists_of_seen? (sentEffects_seen "t" (by simp))
  have hpost : .post "https://amf/cb" "\x7b\x7d" (sentLines "t") ∈ sentEffects "t" :=
    List.mem_cons_of_mem _ (List.mem_singleton_self _)
  refine ⟨result, d', q', e', hrun, heffects, ?_⟩
  apply (dispatched_lines_clean_iff hrun heffects hpost).2
  intro ob token hob _ hsource
  cases hob
  have htoken : bearerSource? (sampleOutbound true) (answering "t") (posts (sentEffects "t")) =
      some "t" ∧ cleanLine "t" = true := by decide +kernel
  obtain rfl : "t" = token := Option.some.inj (htoken.1.symm.trans hsource)
  exact htoken.2

/-- A line break in the answer of the token endpoint ends up in a header line, for a row that
was enqueued and a handle that was created in the ordinary way. -/
theorem token_breaks_header_line :
    (∃ e₀, retryStoreNewInmemory.enqueue (some "s") (some "https://amf/cb") (some "\x7b\x7d")
      none .quiet = .ok ((true, callbackQueue), e₀)) ∧
    (∃ e₀, outboundCreate (sampleConfig true) .quiet = .ok (some (sampleOutbound true), e₀)) ∧
    ∃ result d' q' e',
      dispatchPending (notificationDispatcherNew (some (sampleOutbound true))) callbackQueue none
        (answering brokenToken) = .ok ((result, d', q'), e') ∧
      ∃ uri body headers, .post uri body headers ∈ e'.effects ∧
        ∃ line ∈ headers, '\x0d' ∈ line.toList ∧ '\n' ∈ line.toList := by
  obtain ⟨⟨result, d', q'⟩, e', hrun, heffects⟩ :=
    Prog.exists_of_seen? (sentEffects_seen brokenToken (by simp))
  have hpost : .post "https://amf/cb" "\x7b\x7d" (sentLines brokenToken) ∈
      sentEffects brokenToken := List.mem_cons_of_mem _ (List.mem_singleton_self _)
  have hline : bearerLine brokenToken ∈ sentLines brokenToken := by
    simp [sentLines]
  refine ⟨enqueue_callbackQueue, create_sample true, result, d', q', e', hrun, _, _, _,
    heffects ▸ hpost, _, hline, ?_⟩
  decide +kernel

end sample

end Nssf
