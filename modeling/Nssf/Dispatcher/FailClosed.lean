import Nssf.Dispatcher.Dispatch

/-! Fail-closed delivery: a POST leaves only towards a URL the production gate admits, and with
exactly one bearer line when the token handle is enabled. The proof follows what each function
of the call may emit: claiming emits nothing, attaching emits token requests at most. -/

namespace Nssf

open Base Run OAuth

/-- The effects of a token acquisition. -/
def tokenEffect : Effect → Prop
  | .post _ _ _ => False
  | _ => True

theorem jsonGetString_emitting {P : Effect → Prop} (body key : String) :
    Emitting P (jsonGetString body key) := by
  unfold jsonGetString
  split
  · split
    · exact emitting_allocated _
    · exact emitting_pure none
  · exact emitting_pure none

theorem jwsExp_emitting {P : Effect → Prop} (token : String) : Emitting P (jwsExp token) := by
  unfold jwsExp
  split
  · exact emitting_pure none
  · refine emitting_bind ?_ fun text => ?_
    · refine emitting_bind emitting_alloc fun b => ?_
      cases b
      · exact emitting_pure none
      · exact emitting_pure _
    · cases text <;> exact emitting_pure _

theorem resolveExpiry_emitting {P : Effect → Prop} (cfg : OwnedConfig) (body token : String)
    (now : ℤ) : Emitting P (resolveExpiry cfg body token now) := by
  refine emitting_bind (jwsExp_emitting token) fun exp => ?_
  cases exp with
  | none => exact emitting_pure _
  | some exp =>
    simp only
    split_ifs
    · exact emitting_pure _
    · exact emitting_pure _

theorem buildFormBody_emitting {P : Effect → Prop} (cfg : OwnedConfig) (scope : String) :
    Emitting P (buildFormBody cfg scope) := by
  refine emitting_bind emitting_alloc fun b => ?_
  cases b with
  | false => exact emitting_pure none
  | true =>
    refine emitting_bind (emitting_allocated _) fun escScope => ?_
    refine emitting_bind (emitting_allocated _) fun escId => ?_
    refine emitting_bind ?_ fun escSecret => emitting_allocated _
    unfold escapedSecret
    split
    · exact emitting_allocated _
    · exact emitting_pure none

theorem basicAuth_emitting {P : Effect → Prop} (cfg : OwnedConfig) :
    Emitting P (basicAuth cfg) := by
  unfold basicAuth
  split
  · exact emitting_allocated _
  · exact emitting_pure none

theorem acceptToken_emitting {P : Effect → Prop} (ob : Outbound) (body : String) :
    Emitting P (acceptGrant.acceptToken ob body) := by
  refine emitting_bind (jsonGetString_emitting _ _) fun token => ?_
  refine emitting_bind (jsonGetString_emitting _ _) fun type => ?_
  split
  · split_ifs
    · refine emitting_bind emitting_time fun now => ?_
      refine emitting_bind (resolveExpiry_emitting _ _ _ _) fun expiry => ?_
      cases expiry <;> exact emitting_pure _
    · exact emitting_pure _
  · exact emitting_pure _

theorem acceptGrant_emitting {P : Effect → Prop} (ob : Outbound) (body : String) :
    Emitting P (acceptGrant ob body) := by
  refine emitting_bind (jsonGetString_emitting _ _) fun err => ?_
  cases err with
  | none => exact acceptToken_emitting ob body
  | some err =>
    simp only
    split_ifs
    · exact emitting_pure _
    · exact acceptToken_emitting ob body

theorem refreshLocked_emitting (ob : Outbound) (scope : String) :
    Emitting tokenEffect (refreshLocked ob scope) := by
  refine emitting_bind (buildFormBody_emitting _ _) fun form => ?_
  cases form with
  | none => exact emitting_pure _
  | some form =>
    refine emitting_bind (basicAuth_emitting _) fun auth => ?_
    refine emitting_bind (emitting_askToken trivial) fun answer => ?_
    by_cases hrc : answer.rc ≠ 0
    · rw [if_pos hrc]
      exact emitting_pure _
    · rw [if_neg hrc]
      cases answer.body with
      | none =>
        simp only
        split_ifs
        · exact emitting_pure _
        · exact emitting_pure _
      | some body =>
        simp only
        split_ifs
        · exact acceptGrant_emitting _ _
        · exact emitting_pure _
        · exact emitting_bind (jsonGetString_emitting _ _) fun err => emitting_pure _

theorem recordDeadLetterLocked_emitting (ob : Outbound) (status : ℤ) (err : Option String) :
    Emitting tokenEffect (recordDeadLetterLocked ob status err) := by
  unfold recordDeadLetterLocked
  cases ob.deadLetterCb
  · exact emitting_bind (emitting_pure _) fun _ => emitting_pure _
  · exact emitting_bind (emitting_emit trivial) fun _ => emitting_pure _

theorem acquireLoop_emitting (scope : String) (left attempt : ℕ) (ob : Outbound) :
    Emitting tokenEffect (acquireLoop scope left attempt ob) := by
  induction left generalizing attempt ob with
  | zero => exact emitting_pure _
  | succ left ih =>
    refine emitting_bind (refreshLocked_emitting _ _) fun r => ?_
    obtain ⟨outcome, ob'⟩ := r
    cases outcome with
    | ok => exact emitting_pure _
    | deadLetter status err =>
      exact emitting_bind (recordDeadLetterLocked_emitting _ _ _) fun _ => emitting_pure _
    | retriable =>
      simp only
      split_ifs
      · exact emitting_bind (emitting_emit trivial) fun _ => ih _ _
      · exact emitting_pure _

theorem acquireOwnedCopyLocked_emitting (ob : Outbound) (scope : String) :
    Emitting tokenEffect (acquireOwnedCopyLocked ob scope) := by
  refine emitting_bind ?_ fun r => ?_
  · refine emitting_bind emitting_time fun now => ?_
    split_ifs
    · exact emitting_pure _
    · exact acquireLoop_emitting _ _ _ _
  · obtain ⟨got, ob'⟩ := r
    simp only
    split
    · exact emitting_bind (emitting_allocated _) fun _ => emitting_pure _
    · exact emitting_pure _

theorem attachBearer_emitting (ob : Outbound) (scope : Option String) (headers : List String) :
    Emitting tokenEffect (attachBearer ob scope headers) := by
  unfold attachBearer
  split_ifs
  · refine emitting_bind (acquireOwnedCopyLocked_emitting _ _) fun r => ?_
    obtain ⟨owned, ob'⟩ := r
    cases owned with
    | none => exact emitting_pure _
    | some token =>
      refine emitting_bind emitting_alloc fun b => ?_
      cases b with
      | false => exact emitting_pure _
      | true =>
        refine emitting_bind emitting_alloc fun b => ?_
        cases b <;> exact emitting_pure _
  · exact emitting_pure _

theorem envelopeGetString_silent (env : Json) (key : String) :
    Silent (envelopeGetString env key) := by
  refine silent_bind (silent_getObjectItem _ _) fun v => ?_
  split
  · exact (emitting_allocated _).silent
  · exact (emitting_pure none).silent

theorem envelopeGetBody_silent (env : Json) : Silent (envelopeGetBody env) := by
  refine silent_bind (silent_getObjectItem _ _) fun v => ?_
  split
  · exact (emitting_allocated _).silent
  · exact (emitting_pure none).silent
  · exact (emitting_allocated _).silent
  · exact (emitting_pure none).silent

theorem envelopeSplit_silent (envelope : String) : Silent (envelopeSplit envelope) := by
  refine silent_bind (emitting_parse _).silent fun env => ?_
  cases env with
  | none => exact (emitting_pure none).silent
  | some env =>
    refine silent_bind (envelopeGetString_silent _ _) fun callbackUri => ?_
    refine silent_bind (envelopeGetString_silent _ _) fun correlationId => ?_
    refine silent_bind (envelopeGetBody_silent _) fun body => ?_
    cases body with
    | none => exact (emitting_pure none).silent
    | some body =>
      simp only
      split_ifs
      · exact (emitting_pure none).silent
      · refine silent_bind (emitting_parse _).silent fun check => ?_
        cases check
        · exact (emitting_pure none).silent
        · exact (emitting_pure _).silent

theorem memDequeue_silent (q : RetryStore) : Silent q.memDequeue := by
  refine silent_bind emitting_clockMs.silent fun now => ?_
  cases q.pickDue now with
  | none => exact (emitting_pure _).silent
  | some p =>
    refine silent_bind (emitting_allocated _).silent fun id => ?_
    refine silent_bind (emitting_allocated _).silent fun sub => ?_
    cases id with
    | none => exact (emitting_pure _).silent
    | some id =>
      cases sub with
      | none => exact (emitting_pure _).silent
      | some sub =>
        refine silent_bind (envelopeSplit_silent _) fun parts => ?_
        cases parts
        · exact (emitting_pure _).silent
        · exact (emitting_pure _).silent

theorem resolve_emitting {P : Effect → Prop} (q : RetryStore) (id : ℕ) (op : StoreOp) :
    Emitting P (q.resolve id op) := by
  cases op with
  | complete => exact emitting_pure _
  | deadLetter => exact emitting_pure _
  | requeue =>
    change Emitting P (q.memRequeue id)
    unfold RetryStore.memRequeue
    cases q.indexOf id with
    | none => exact emitting_pure _
    | some i =>
      refine emitting_bind emitting_jitterUnit fun u => ?_
      exact emitting_bind emitting_clockMs fun now => emitting_pure _

theorem effectiveCorrelation_emitting {P : Effect → Prop} (inbound stored : Option String) :
    Emitting P (effectiveCorrelation inbound stored) := by
  have hgen : Emitting P genCorrelationHex :=
    emitting_bind emitting_nextCorrelation fun _ =>
      emitting_bind emitting_time fun _ => emitting_pure _
  unfold effectiveCorrelation
  split
  · split_ifs
    · exact emitting_pure _
    · exact hgen
  · exact hgen

theorem baseHeaders_emitting {P : Effect → Prop} (corr : String) :
    Emitting P (baseHeaders corr) := by
  refine emitting_bind emitting_alloc fun b => ?_
  cases b with
  | false => exact emitting_pure none
  | true =>
    simp only [if_true, appendCorrelation]
    split_ifs
    · exact emitting_pure none
    · refine emitting_bind emitting_alloc fun b => ?_
      cases b with
      | false => exact emitting_pure none
      | true =>
        refine emitting_bind emitting_alloc fun b => ?_
        cases b <;> exact emitting_pure _

theorem prepare_emitting (d : Dispatcher) (item : RetryItem) (inbound : Option String) :
    Emitting tokenEffect (d.prepare item inbound) := by
  refine emitting_bind (effectiveCorrelation_emitting _ _) fun corr => ?_
  refine emitting_bind (baseHeaders_emitting _) fun headers => ?_
  cases headers with
  | none => exact emitting_pure _
  | some headers =>
    cases d.oauth with
    | none => exact emitting_pure _
    | some ob =>
      refine emitting_bind (attachBearer_emitting _ _ _) fun r => ?_
      obtain ⟨st, ob'⟩ := r
      cases st <;> exact emitting_pure _

def isAuthorizationLine (line : String) : Bool :=
  hasPrefixCi line.toList "Authorization:".toList

theorem bearerLine_isAuthorization (token : String) :
    isAuthorizationLine (bearerLine token) = true := by
  unfold isAuthorizationLine bearerLine
  rw [String.toList_append]
  rfl

theorem correlationLine_not_authorization (id : String) :
    isAuthorizationLine (correlationLine id) = false := by
  unfold isAuthorizationLine correlationLine
  rw [String.toList_append]
  rfl

theorem traceparentLine_not_authorization (id : String) :
    isAuthorizationLine (traceparentLine id) = false := by
  unfold isAuthorizationLine traceparentLine
  simp only [String.toList_append, List.append_assoc]
  rfl

theorem baseHeaders_eq {corr : String} {headers : List String} {e e' : Env}
    (h : baseHeaders corr e = .ok (some headers, e')) :
    headers = ["Content-Type: application/json", correlationLine corr, traceparentLine corr] := by
  unfold baseHeaders at h
  obtain ⟨b, e₁, -, h⟩ := Prog.bind_eq_ok.1 h
  cases b with
  | false => cases h
  | true =>
    simp only [if_true, appendCorrelation] at h
    split_ifs at h
    · cases h
    · obtain ⟨b, e₂, -, h⟩ := Prog.bind_eq_ok.1 h
      cases b with
      | false => cases h
      | true =>
        obtain ⟨b, e₃, -, h⟩ := Prog.bind_eq_ok.1 h
        cases b with
        | false => cases h
        | true =>
          cases h
          rfl

theorem baseHeaders_no_authorization {corr : String} {headers : List String} {e e' : Env}
    (h : baseHeaders corr e = .ok (some headers, e')) :
    headers.filter isAuthorizationLine = [] := by
  rw [baseHeaders_eq h]
  have hct : isAuthorizationLine "Content-Type: application/json" = false := by decide
  simp [hct, correlationLine_not_authorization, traceparentLine_not_authorization]

/-- A bearer is attached from the token that the cache holds when the attach returns. -/
theorem attachBearer_ok {ob ob' : Outbound} {scope : Option String}
    {headers headers' : List String} {e e' : Env}
    (h : attachBearer ob scope headers e = .ok ((.ok headers', ob'), e')) :
    ∃ token, ob'.cachedToken = some token ∧ headers' = headers ++ [bearerLine token] := by
  unfold attachBearer at h
  split_ifs at h
  · obtain ⟨⟨owned, ob₁⟩, e₁, hacq, h⟩ := Prog.bind_eq_ok.1 h
    cases owned with
    | none => cases h
    | some token =>
      obtain ⟨b, e₂, -, h⟩ := Prog.bind_eq_ok.1 h
      cases b with
      | false => cases h
      | true =>
        obtain ⟨b, e₃, -, h⟩ := Prog.bind_eq_ok.1 h
        cases b with
        | false => cases h
        | true =>
          cases h
          refine ⟨token, ?_, rfl⟩
          unfold acquireOwnedCopyLocked at hacq
          obtain ⟨⟨got, ob₂⟩, e₄, -, hacq⟩ := Prog.bind_eq_ok.1 hacq
          cases got with
          | false => cases hacq
          | true =>
            cases hc : ob₂.cachedToken with
            | none =>
              simp only [hc] at hacq
              cases hacq
            | some cached =>
              simp only [hc] at hacq
              rw [Prog.bind_of_ok (allocated_apply _ _)] at hacq
              cases hb : e₄.alloc.head with
              | false =>
                rw [hb] at hacq
                cases hacq
              | true =>
                rw [hb] at hacq
                cases hacq
                exact hc
  · cases h

theorem attachBearer_noAttach {ob ob' : Outbound} {scope : Option String}
    {headers : List String} {e e' : Env}
    (h : attachBearer ob scope headers e = .ok ((.noAttach, ob'), e')) :
    ob.cfg.enabled = false := by
  by_contra hen
  have hen : ob.cfg.enabled = true := by simpa using hen
  unfold attachBearer at h
  rw [if_pos hen] at h
  obtain ⟨⟨owned, ob₁⟩, e₁, -, h⟩ := Prog.bind_eq_ok.1 h
  cases owned with
  | none => cases h
  | some token =>
    obtain ⟨b, e₂, -, h⟩ := Prog.bind_eq_ok.1 h
    cases b with
    | false => cases h
    | true =>
      obtain ⟨b, e₃, -, h⟩ := Prog.bind_eq_ok.1 h
      cases b <;> cases h

/-- One bearer line, from the token cached at the end of the attach. -/
def Authorized (d' : Dispatcher) (headers : List String) : Prop :=
  ∃ ob' token, d'.oauth = some ob' ∧ ob'.cachedToken = some token ∧
    headers.filter isAuthorizationLine = [bearerLine token]

theorem prepare_authorized {d d' : Dispatcher} {item : RetryItem} {inbound : Option String}
    {headers : List String} {e e' : Env} {ob : Outbound}
    (h : d.prepare item inbound e = .ok ((.ok headers, d'), e')) (hd : d.oauth = some ob)
    (hen : ob.cfg.enabled = true) : Authorized d' headers := by
  unfold Dispatcher.prepare at h
  obtain ⟨corr, e₁, -, h⟩ := Prog.bind_eq_ok.1 h
  unfold buildHeaders at h
  obtain ⟨base, e₂, hbase, h⟩ := Prog.bind_eq_ok.1 h
  cases base with
  | none => cases h
  | some base =>
    simp only [hd] at h
    obtain ⟨⟨st, ob'⟩, e₃, hatt, h⟩ := Prog.bind_eq_ok.1 h
    cases st with
    | abort => cases h
    | noAttach =>
      have hoff := attachBearer_noAttach hatt
      rw [hen] at hoff
      cases hoff
    | ok attached =>
      cases h
      obtain ⟨token, htok, rfl⟩ := attachBearer_ok hatt
      refine ⟨ob', token, rfl, htok, ?_⟩
      rw [List.filter_append, baseHeaders_no_authorization hbase, List.nil_append,
        List.filter_cons_of_pos (bearerLine_isAuthorization token), List.filter_nil]

theorem deliver_effects {uri body : String} {headers : List String} {e e' : Env} {x : Delivery}
    (h : deliver uri body headers e = .ok (x, e')) :
    e'.effects = e.effects ++ [.post uri body headers] := by
  cases h
  rfl

/-- What a claimed row's dispatch may send out: nothing unless the gate admits the row, and
then token requests followed by at most one POST of that row. -/
theorem dispatchItem_effects {oauth : Option Outbound} {q q' : RetryStore} {item : RetryItem}
    {inbound : Option String} {result : DispatchResult} {d' : Dispatcher} {e e' : Env}
    (h : dispatchItem (notificationDispatcherNew oauth) q item inbound e =
      .ok ((result, d', q'), e')) :
    (callbackUrlAllowed item.callbackUri false = false → e'.effects = e.effects ∧
      d'.oauth = oauth) ∧
    Env.Emits (fun x => ∀ uri body headers, x = .post uri body headers →
      item.callbackUri = some uri ∧ item.payloadJson = body ∧
      callbackUrlAllowed (some uri) false = true ∧
      ∀ ob, oauth = some ob → ob.cfg.enabled = true → Authorized d' headers) e e' := by
  unfold dispatchItem at h
  have hadm : (notificationDispatcherNew oauth).admits item =
      callbackUrlAllowed item.callbackUri false := rfl
  rw [hadm] at h
  cases hurl : callbackUrlAllowed item.callbackUri false with
  | false =>
    rw [hurl] at h
    obtain ⟨q₁, e₁, hq, h⟩ := Prog.bind_eq_ok.1 h
    cases h
    have hs := (resolve_emitting q item.id .complete).silent e q' e' hq
    exact ⟨fun _ => ⟨hs, rfl⟩, .of_eq hs⟩
  | true =>
    refine ⟨fun hf => absurd hf (by simp), ?_⟩
    rw [hurl] at h
    obtain ⟨⟨built, d₁⟩, e₁, hprep, h⟩ := Prog.bind_eq_ok.1 h
    have htok := (prepare_emitting _ _ _).within e (built, d₁) e₁ hprep
    have hweak : ∀ (R : Effect → Prop), (∀ x, tokenEffect x → R x) → Env.Emits R e e₁ := by
      intro R hR
      obtain ⟨new, hn, hP⟩ := htok
      exact ⟨new, hn, fun x hx => hR x (hP x hx)⟩
    have hnopost : ∀ x, tokenEffect x → ∀ uri body headers, x ≠ .post uri body headers := by
      intro x hx uri body headers hxe
      rw [hxe] at hx
      exact hx
    cases built with
    | abort =>
      obtain ⟨q₁, e₂, hq, h⟩ := Prog.bind_eq_ok.1 h
      cases h
      refine (hweak _ fun x hx uri body headers hxe => ?_).trans
        (.of_eq ((resolve_emitting _ _ _).silent _ _ _ hq))
      exact absurd hxe (hnopost x hx uri body headers)
    | failed =>
      obtain ⟨q₁, e₂, hq, h⟩ := Prog.bind_eq_ok.1 h
      cases h
      refine (hweak _ fun x hx uri body headers hxe => ?_).trans
        (.of_eq ((resolve_emitting _ _ _).silent _ _ _ hq))
      exact absurd hxe (hnopost x hx uri body headers)
    | ok headers =>
      obtain ⟨x, e₂, hdel, h⟩ := Prog.bind_eq_ok.1 h
      generalize afterDelivery item x = decision at h
      obtain ⟨op, r⟩ := decision
      obtain ⟨q₁, e₃, hq, h⟩ := Prog.bind_eq_ok.1 h
      cases h
      obtain ⟨uri, huri⟩ := callbackUrlAllowed_isSome hurl
      refine (hweak _ fun x hx uri body headers hxe => ?_).trans
        (Env.Emits.trans ⟨_, deliver_effects hdel, ?_⟩
          (.of_eq ((resolve_emitting _ _ _).silent _ _ _ hq)))
      · exact absurd hxe (hnopost x hx uri body headers)
      · intro y hy uri' body' headers' hye
        rw [List.mem_singleton.1 hy] at hye
        injection hye with h₁ h₂ h₃
        subst h₁ h₂ h₃
        rw [huri] at hurl ⊢
        refine ⟨rfl, rfl, hurl, ?_⟩
        intro ob hob hen
        exact prepare_authorized hprep hob hen

theorem memDeadLetter_findKey {q : RetryStore} {id : ℕ}
    (h : ∃ r ∈ q.rows, r.id = id) :
    ∃ r, findKey Row.id id (q.memDeadLetter id).rows = some r ∧ r.status = .deadLetter ∧
      r.claimed = false := by
  obtain ⟨r, hr, hid⟩ := h
  unfold RetryStore.memDeadLetter
  cases hi : q.indexOf id with
  | none => exact absurd hid (RetryStore.indexOf_none hi r hr)
  | some i =>
    have hkey : ∀ r : Row,
        ({ r with status := .deadLetter, claimed := false } : Row).id = r.id := fun _ => rfl
    have hf := findKey_modify_findIdx hkey hi
    cases hk : findKey Row.id id q.rows with
    | none => exact absurd hid (findKey_eq_none_iff.1 hk r hr)
    | some b =>
      rw [hk] at hf
      exact ⟨_, hf, rfl, rfl⟩

theorem memDequeue_claimed_mem {q q₁ : RetryStore} {item : RetryItem} {e e₁ : Env}
    (h : q.memDequeue e = .ok ((.claimed item, q₁), e₁)) : ∃ r ∈ q₁.rows, r.id = item.id := by
  rcases RetryStore.memDequeue_cases h with ⟨hg, -⟩ | ⟨hg, -⟩ | ⟨now, row, i, hrow, -, hcase⟩
  · cases hg
  · cases hg
  · rcases hcase with ⟨hg, -⟩ | ⟨item', hg, hid, -, rfl⟩
    · cases hg
    · cases hg
      have hset : (q.updateAt i fun r => { r with claimed := true }).rows[i]? =
          some { row with claimed := true } := by
        simp [RetryStore.updateAt, hrow]
      exact ⟨_, List.mem_of_getElem? hset, hid.symm⟩

/-- An aborted attach ends the call: the row is retained as a dead letter and the caller is
told so. -/
theorem dispatchItem_abort {ob ob' : Outbound} {q : RetryStore} {item : RetryItem}
    {inbound : Option String} {corr : String} {headers : List String} {e e₁ e₂ e₃ : Env}
    (hurl : callbackUrlAllowed item.callbackUri false = true)
    (hcorr : effectiveCorrelation inbound item.correlationId e = .ok (corr, e₁))
    (hbase : baseHeaders corr e₁ = .ok (some headers, e₂))
    (hatt : attachBearer ob none headers e₂ = .ok ((.abort, ob'), e₃)) :
    dispatchItem (notificationDispatcherNew (some ob)) q item inbound e =
      .ok ((.forbidden, notificationDispatcherNew (some ob'), q.memDeadLetter item.id), e₃) := by
  have hadm : (notificationDispatcherNew (some ob)).admits item = true := hurl
  have hprep : (notificationDispatcherNew (some ob)).prepare item inbound e =
      .ok ((.abort, notificationDispatcherNew (some ob')), e₃) := by
    unfold Dispatcher.prepare
    rw [Prog.bind_of_ok hcorr]
    unfold buildHeaders
    rw [Prog.bind_of_ok hbase]
    change (attachBearer ob none headers >>= _) e₂ = _
    rw [Prog.bind_of_ok hatt]
    rfl
  unfold dispatchItem
  rw [if_pos hadm, Prog.bind_of_ok hprep]
  rfl

theorem dispatchItem_emitting (d : Dispatcher) (q : RetryStore) (item : RetryItem)
    (inbound : Option String) :
    Emitting (fun _ => True) (dispatchItem d q item inbound) := by
  have hprep : Emitting (fun _ => True) (d.prepare item inbound) := by
    intro e
    refine Prog.wp_mono (prepare_emitting d item inbound e) fun r e' h => ?_
    obtain ⟨new, hnew, -⟩ := h
    exact ⟨new, hnew, fun _ _ => trivial⟩
  unfold dispatchItem
  split_ifs
  · refine emitting_bind hprep fun r => ?_
    obtain ⟨built, d'⟩ := r
    cases built with
    | abort => exact emitting_bind (resolve_emitting _ _ _) fun _ => emitting_pure _
    | failed => exact emitting_bind (resolve_emitting _ _ _) fun _ => emitting_pure _
    | ok headers =>
      refine emitting_bind (emitting_deliver trivial) fun x => ?_
      generalize afterDelivery item x = decision
      obtain ⟨op, result⟩ := decision
      exact emitting_bind (resolve_emitting _ _ _) fun _ => emitting_pure _
  · exact emitting_bind (resolve_emitting _ _ _) fun _ => emitting_pure _

/-- Only the claim of a row can fault, in the reading of its envelope. -/
theorem dispatchPending_returns (d : Dispatcher) {q : RetryStore} (inbound : Option String)
    {e : Env} (h : Prog.Returns q.memDequeue e) :
    Prog.Returns (dispatchPending d q inbound) e := by
  obtain ⟨⟨⟨got, q₁⟩, e₁⟩, hdq⟩ := h
  unfold dispatchPending Prog.Returns
  rw [Prog.bind_of_ok hdq]
  cases got with
  | none => exact ⟨_, rfl⟩
  | error => exact ⟨_, rfl⟩
  | claimed item => exact (dispatchItem_emitting d q₁ item inbound).returns e₁

/-- Fail-closed delivery of the production dispatcher, for any queue content, token handle and
environment. -/
theorem dispatchPending_fail_closed (oauth : Option Outbound) {q q₁ : RetryStore}
    (inbound : Option String) {got : RetryStore.Dequeued} {e e₁ : Env}
    (hdq : q.memDequeue e = .ok ((got, q₁), e₁)) :
    ∃ result d' q' e' new,
      dispatchPending (notificationDispatcherNew oauth) q inbound e =
        .ok ((result, d', q'), e') ∧
      e'.effects = e.effects ++ new ∧
      (∀ uri body headers, .post uri body headers ∈ new →
        ∃ item, got = .claimed item ∧ item.callbackUri = some uri ∧ item.payloadJson = body ∧
          callbackUrlAllowed (some uri) false = true ∧
          ∀ ob, oauth = some ob → ob.cfg.enabled = true → Authorized d' headers) ∧
      ∀ item, got = .claimed item →
        (callbackUrlAllowed item.callbackUri false = false → new = [] ∧ d'.oauth = oauth) ∧
        ∀ ob ob' corr headers e₂ e₃ e₄, oauth = some ob →
          callbackUrlAllowed item.callbackUri false = true →
          effectiveCorrelation inbound item.correlationId e₁ = .ok (corr, e₂) →
          baseHeaders corr e₂ = .ok (some headers, e₃) →
          attachBearer ob none headers e₃ = .ok ((.abort, ob'), e₄) →
          (∀ uri body headers, .post uri body headers ∉ new) ∧ result = .forbidden ∧
            ∃ r, findKey Row.id item.id q'.rows = some r ∧ r.status = .deadLetter := by
  have hsilent := memDequeue_silent q e (got, q₁) e₁ hdq
  obtain ⟨⟨⟨result, d', q'⟩, e'⟩, hrun⟩ :=
    dispatchPending_returns (notificationDispatcherNew oauth) inbound ⟨_, hdq⟩
  have h := hrun
  unfold dispatchPending at h
  rw [Prog.bind_of_ok hdq] at h
  cases got with
  | none =>
    cases h
    exact ⟨_, _, _, _, [], hrun, by rw [hsilent, List.append_nil], by simp, by simp⟩
  | error =>
    cases h
    exact ⟨_, _, _, _, [], hrun, by rw [hsilent, List.append_nil], by simp, by simp⟩
  | claimed item =>
    change dispatchItem (notificationDispatcherNew oauth) q₁ item inbound e₁ = _ at h
    obtain ⟨hclosed, new, hnew, hP⟩ := dispatchItem_effects h
    refine ⟨result, d', q', e', new, hrun, by rw [hnew, hsilent], ?_, ?_⟩
    · intro uri body headers hmem
      exact ⟨item, rfl, hP _ hmem uri body headers rfl⟩
    · intro item' hitem
      cases hitem
      constructor
      · intro hurl
        obtain ⟨heff, hoauth⟩ := hclosed hurl
        refine ⟨?_, hoauth⟩
        rw [hnew] at heff
        simpa using heff
      · intro ob ob' corr headers e₂ e₃ e₄ hob hurl hcorr hbase hatt
        subst hob
        rw [dispatchItem_abort hurl hcorr hbase hatt] at h
        cases h
        refine ⟨?_, rfl, ?_⟩
        · obtain ⟨new', hnew', htok⟩ := ((effectiveCorrelation_emitting _ _).within _ _ _
            hcorr).trans (((baseHeaders_emitting _).within _ _ _ hbase).trans
              ((attachBearer_emitting _ _ _).within _ _ _ hatt))
          rw [hnew', List.append_cancel_left_eq] at hnew
          intro uri body headers' hmem
          exact htok _ (hnew ▸ hmem)
        · obtain ⟨r, hr, hst, -⟩ := memDeadLetter_findKey (memDequeue_claimed_mem hdq)
          exact ⟨r, hr, hst⟩

def plainQueue (claimed : Bool) : RetryStore :=
  ⟨[⟨1, "s", "\x7b\"callbackUri\":\"http://a\",\"body\":\x7b\x7d\x7d", 0, claimed, .pending, 0⟩],
    2⟩

def plainItem : RetryItem := ⟨1, "s", some "http://a", "\x7b\x7d", none, 0⟩

/-- A row for a plaintext callback goes nowhere. -/
theorem dispatchPending_fail_closed_plain :
    ∃ result d' q' e',
      dispatchPending (notificationDispatcherNew none) (plainQueue false) none Env.quiet =
        .ok ((result, d', q'), e') ∧ e'.effects = [] := by
  have hres : Prog.result? (plainQueue false).memDequeue Env.quiet =
      some (.claimed plainItem, plainQueue true) := by decide +kernel
  obtain ⟨e₁, hdq⟩ := Prog.exists_of_result? hres
  obtain ⟨result, d', q', e', new, hrun, heff, -, hrow⟩ :=
    dispatchPending_fail_closed none none hdq
  have hurl : callbackUrlAllowed plainItem.callbackUri false = false := by decide +kernel
  have hnew := ((hrow plainItem rfl).1 hurl).1
  refine ⟨result, d', q', e', hrun, ?_⟩
  rw [heff, hnew]
  rfl

end Nssf
