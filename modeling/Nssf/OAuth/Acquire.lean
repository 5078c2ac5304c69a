import Nssf.OAuth.Outbound
import Nssf.Runtime.Allocating

/-! The machine behind one token acquire, with every allocation granted. What an answer of the
token endpoint comes to is a function of the answer and the clock, and the loop runs through
the answers up to the first one that is final or to the end of its budget. -/

namespace Nssf.OAuth

open Base Run

section readings

def jsonString? (body key : String) : Option String :=
  match findKey key.toList body.toList with
  | some ('"' :: q) => (rawLiteral q).map String.ofList
  | _ => none

theorem gives_dupOrNull {F : Fault → Prop} (s : Option String) :
    Gives F (fun o => o = none ∨ o = s) (dupOrNull s) := by
  cases s with
  | none => exact gives_pure (Or.inl rfl)
  | some s => exact gives_allocated s

theorem yields_dupOrNull (s : Option String) : Yields (dupOrNull s) s := by
  cases s with
  | none => exact yields_pure none
  | some s => exact yields_allocated s

theorem jsonGetString_eq (body key : String) :
    jsonGetString body key = dupOrNull (jsonString? body key) := by
  simp only [jsonGetString, jsonString?]
  rcases findKey key.toList body.toList with _ | _ | ⟨c, q⟩
  · rfl
  · rfl
  · by_cases hc : c = '"'
    · subst hc
      cases hraw : rawLiteral q with
      | none => simp [hraw, dupOrNull]
      | some raw => simp [hraw, dupOrNull]
    · simp [hc, dupOrNull]

def jwsExp? (token : String) : Option ℤ := do
  let payload ← jwsPayload token.toList
  let text ← b64urlLoop payload 0 0
  jsonGetNumber (Json.cutAtNul text) "exp".toList

theorem yields_jwsExp (token : String) : Yields (jwsExp token) (jwsExp? token) := by
  unfold jwsExp jwsExp?
  cases jwsPayload token.toList with
  | none => exact yields_pure none
  | some payload =>
    have hdecode : Yields (b64urlDecode payload) (b64urlLoop payload 0 0) :=
      Yields.bind yields_alloc (yields_pure _)
    refine Yields.bind hdecode ?_
    change Yields _ ((b64urlLoop payload 0 0).bind _)
    cases b64urlLoop payload 0 0 with
    | none => exact yields_pure none
    | some text => exact yields_pure _

/-- The earlier of the lifetime that is announced and the one that the token itself states,
both within the ceiling. -/
def expiry? (cfg : OwnedConfig) (body token : String) (now : ℤ) : Option ℤ :=
  let fromTtl := match jsonGetNumber body.toList "expires_in".toList with
    | some e => if 0 < e then some (now + min e cfg.maxTtlSeconds) else none
    | none => none
  match jwsExp? token with
  | none => fromTtl
  | some exp =>
    if exp ≤ now - clockSkewLeeway then none
    else
      let capped := min exp (now + cfg.maxTtlSeconds)
      match fromTtl with
      | none => some capped
      | some t => some (min capped t)

theorem yields_resolveExpiry (cfg : OwnedConfig) (body token : String) (now : ℤ) :
    Yields (resolveExpiry cfg body token now) (expiry? cfg body token now) := by
  unfold resolveExpiry expiry?
  refine Yields.bind (yields_jwsExp token) ?_
  cases jwsExp? token with
  | none => exact yields_pure _
  | some exp =>
    dsimp only
    split_ifs
    · exact yields_pure _
    · exact yields_pure _

def secret? (cfg : OwnedConfig) : Option String :=
  match cfg.authMethod, cfg.secretRef with
  | .secretPost, some s => some (curlEscape s)
  | _, _ => none

def form (cfg : OwnedConfig) (scope : String) : String :=
  "grant_type=client_credentials" ++ ("&scope=" ++ curlEscape scope) ++
    ("&nfInstanceId=" ++ curlEscape cfg.nfInstanceId) ++ formPart "&client_secret=" (secret? cfg)

theorem yields_buildFormBody (cfg : OwnedConfig) (scope : String) :
    Yields (buildFormBody cfg scope) (some (form cfg scope)) := by
  have hsecret : escapedSecret cfg = dupOrNull (secret? cfg) := by
    unfold escapedSecret secret?
    cases cfg.authMethod <;> cases cfg.secretRef <;> rfl
  refine Yields.bind yields_alloc ?_
  refine Yields.bind (yields_allocated (curlEscape scope)) ?_
  refine Yields.bind (yields_allocated (curlEscape cfg.nfInstanceId)) ?_
  rw [hsecret]
  exact Yields.bind (yields_dupOrNull _) (yields_allocated _)

def auth? (cfg : OwnedConfig) : Option String :=
  match cfg.authMethod, cfg.secretRef with
  | .secretBasic, some s => some (cfg.nfInstanceId ++ ":" ++ s)
  | _, _ => none

theorem basicAuth_eq (cfg : OwnedConfig) : basicAuth cfg = dupOrNull (auth? cfg) := by
  unfold basicAuth auth?
  cases cfg.authMethod <;> cases cfg.secretRef <;> rfl

end readings

/-- The request that one attempt makes. -/
def tokenRequest (cfg : OwnedConfig) (scope : String) : Effect :=
  .tokenPost cfg.tokenUrl (form cfg scope) (auth? cfg)

/-- The token and its expiry that a body grants. -/
def grant? (cfg : OwnedConfig) (body : String) (now : ℤ) : Option (String × ℤ) := do
  let token ← jsonString? body "access_token"
  let type ← jsonString? body "token_type"
  if token ≠ "" ∧ strcasecmpEq type "Bearer" = true then
    (expiry? cfg body token now).map fun expiry => (token, expiry)
  else none

/-- What an answer with status 200 comes to. -/
def grantOutcome (cfg : OwnedConfig) (body : String) (now : ℤ) : Refresh :=
  match (jsonString? body "error").filter (· != "") with
  | some err => .deadLetter 200 (some err)
  | none => if (grant? cfg body now).isSome then .ok else .deadLetter 200 none

/-- What an answer of the token endpoint comes to. -/
def outcome (cfg : OwnedConfig) (a : TokenAnswer) (now : ℤ) : Refresh :=
  if a.rc ≠ 0 then .retriable
  else if retriableStatus a.status then .retriable
  else
    match a.body with
    | none => .deadLetter a.status none
    | some body =>
      if a.status = 200 then grantOutcome cfg body now
      else .deadLetter a.status (jsonString? body "error")

def Outbound.take (ob : Outbound) (grant : Option (String × ℤ)) : Outbound :=
  match grant with
  | some (token, expiry) => { ob with cachedToken := some token, cachedExpiry := expiry }
  | none => ob

/-- What the cache takes: the token of an answer that is good and nothing of any other. -/
def granted (cfg : OwnedConfig) (a : TokenAnswer) (now : ℤ) : Option (String × ℤ) :=
  if outcome cfg a now = .ok then a.body.bind fun body => grant? cfg body now else none

def Outbound.settle (ob : Outbound) (a : TokenAnswer) (now : ℤ) : Outbound :=
  ob.take (granted ob.cfg a now)

/-- Between the two only memory was asked for and the clock was read. -/
structure Reads (e e' : Env) : Prop where
  alloc : e'.AllocOk
  token : e'.token = e.token
  effects : e'.effects = e.effects

theorem Reads.of_draws {e e' : Env} (he : e.AllocOk) (h : e.Draws e') : Reads e e' where
  alloc := h.allocOk he
  token := by
    obtain ⟨n, rfl⟩ := h
    rfl
  effects := h.effects_eq

theorem Reads.trans {e e' e'' : Env} (h : Reads e e') (h' : Reads e' e'') : Reads e e'' where
  alloc := h'.alloc
  token := h'.token.trans h.token
  effects := h'.effects.trans h.effects

theorem time_eq_of_draws {e e' : Env} (h : e.Draws e') : e'.time = e.time := by
  obtain ⟨n, rfl⟩ := h
  rfl

section refresh

variable {ob : Outbound} {e : Env}

theorem acceptToken_spec (ob : Outbound) (body : String) (he : e.AllocOk) :
    ∃ e', acceptGrant.acceptToken ob body e =
        .ok ((if (grant? ob.cfg body e.time.head).isSome then .ok else .deadLetter 200 none,
          ob.take (grant? ob.cfg body e.time.head)), e') ∧ Reads e e' := by
  unfold acceptGrant.acceptToken grant?
  simp only [jsonGetString_eq]
  obtain ⟨e₁, htoken, hd₁⟩ := yields_dupOrNull (jsonString? body "access_token") e he
  obtain ⟨e₂, htype, hd₂⟩ :=
    yields_dupOrNull (jsonString? body "token_type") e₁ (hd₁.allocOk he)
  have hd := hd₁.trans hd₂
  have hreads := Reads.of_draws he hd
  rw [Prog.bind_of_ok htoken, Prog.bind_of_ok htype]
  cases jsonString? body "access_token" with
  | none => exact ⟨e₂, rfl, hreads⟩
  | some token =>
    cases jsonString? body "token_type" with
    | none => exact ⟨e₂, rfl, hreads⟩
    | some type =>
      dsimp only [Option.bind_eq_bind, Option.bind_some]
      by_cases hbearer : token ≠ "" ∧ strcasecmpEq type "Bearer" = true
      · simp only [if_pos hbearer]
        have hnow : time e₂ = .ok (e.time.head, { e₂ with time := e₂.time.tail }) := by
          rw [← time_eq_of_draws hd]
          rfl
        have he₃ : ({ e₂ with time := e₂.time.tail } : Env).AllocOk := hreads.alloc
        obtain ⟨e₄, hexpiry, hd₄⟩ :=
          yields_resolveExpiry ob.cfg body token e.time.head _ he₃
        have hreads₄ : Reads e e₄ :=
          hreads.trans (Reads.trans ⟨he₃, rfl, rfl⟩ (Reads.of_draws he₃ hd₄))
        refine ⟨e₄, ?_, hreads₄⟩
        rw [Prog.bind_of_ok hnow, Prog.bind_of_ok hexpiry]
        cases expiry? ob.cfg body token e.time.head with
        | none => rfl
        | some expiry => rfl
      · simp only [if_neg hbearer]
        exact ⟨e₂, rfl, hreads⟩

theorem acceptGrant_spec (ob : Outbound) (body : String) (he : e.AllocOk) :
    ∃ e', acceptGrant ob body e = .ok ((grantOutcome ob.cfg body e.time.head,
        if grantOutcome ob.cfg body e.time.head = .ok then
          ob.take (grant? ob.cfg body e.time.head) else ob), e') ∧ Reads e e' := by
  unfold acceptGrant grantOutcome
  rw [jsonGetString_eq]
  obtain ⟨e₁, herror, hd₁⟩ := yields_dupOrNull (jsonString? body "error") e he
  have hreads := Reads.of_draws he hd₁
  obtain ⟨e₂, haccept, hreads₂⟩ := acceptToken_spec ob body hreads.alloc
  rw [time_eq_of_draws hd₁] at haccept
  have htaken : ∀ r : Refresh, r ≠ .ok →
      (if (if (grant? ob.cfg body e.time.head).isSome then .ok else r) = .ok then
        ob.take (grant? ob.cfg body e.time.head) else ob) =
      ob.take (grant? ob.cfg body e.time.head) := by
    intro r hr
    cases grant? ob.cfg body e.time.head with
    | none => simp [hr, Outbound.take]
    | some g => simp
  rw [Prog.bind_of_ok herror]
  cases jsonString? body "error" with
  | none =>
    refine ⟨e₂, ?_, hreads.trans hreads₂⟩
    dsimp only [Option.filter_none]
    rw [htaken _ (by simp)]
    exact haccept
  | some err =>
    dsimp only
    by_cases herr : err = ""
    · rw [if_neg (by simpa using herr), Option.filter_some]
      refine ⟨e₂, ?_, hreads.trans hreads₂⟩
      simp only [herr, bne_self_eq_false, Bool.false_eq_true, if_false]
      rw [htaken _ (by simp)]
      exact haccept
    · rw [if_pos herr, Option.filter_some]
      refine ⟨e₁, ?_, hreads⟩
      simp only [bne_iff_ne, ne_eq, herr, not_false_eq_true, if_true]
      rfl

theorem settle_of_ne_ok {a : TokenAnswer} {now : ℤ} (h : outcome ob.cfg a now ≠ .ok) :
    ob.settle a now = ob := by
  unfold Outbound.settle granted
  rw [if_neg h]
  rfl

theorem grantOutcome_ne_retriable (cfg : OwnedConfig) (body : String) (now : ℤ) :
    grantOutcome cfg body now ≠ .retriable := by
  unfold grantOutcome
  split
  · simp
  · split_ifs <;> simp

/-- What is made of an answer, once it is there. -/
def classify (ob : Outbound) (answer : TokenAnswer) : Run (Refresh × Outbound) :=
  if answer.rc ≠ 0 then return (.retriable, ob)
  else match answer.body with
    | some body =>
      if answer.status = 200 then acceptGrant ob body
      else if retriableStatus answer.status then return (.retriable, ob)
      else do
        let err ← jsonGetString body "error"
        return (.deadLetter answer.status err, ob)
    | none =>
      if retriableStatus answer.status then return (.retriable, ob)
      else return (.deadLetter answer.status none, ob)

theorem classify_spec (ob : Outbound) (a : TokenAnswer) (he : e.AllocOk) :
    ∃ e', classify ob a e = .ok ((outcome ob.cfg a e.time.head, ob.settle a e.time.head), e') ∧
      Reads e e' ∧ (outcome ob.cfg a e.time.head = .retriable → e'.time = e.time) := by
  have hkept {o : Refresh} (ho : outcome ob.cfg a e.time.head = o) (hne : o ≠ .ok)
      (h : classify ob a e = .ok ((o, ob), e)) :
      ∃ e', classify ob a e =
          .ok ((outcome ob.cfg a e.time.head, ob.settle a e.time.head), e') ∧
        Reads e e' ∧ (outcome ob.cfg a e.time.head = .retriable → e'.time = e.time) := by
    refine ⟨e, ?_, ⟨he, rfl, rfl⟩, fun _ => rfl⟩
    rw [settle_of_ne_ok (ho.trans_ne hne), ho, h]
  by_cases hrc : a.rc = 0
  · cases hbody : a.body with
    | none =>
      cases hstatus : retriableStatus a.status with
      | true =>
        refine hkept (o := .retriable) ?_ (by simp) ?_
        · simp [outcome, hstatus]
        · simp only [classify, hrc, hbody, hstatus]
          rfl
      | false =>
        refine hkept (o := .deadLetter a.status none) ?_ (by simp) ?_
        · simp [outcome, hrc, hstatus, hbody]
        · simp only [classify, hrc, hbody, hstatus]
          rfl
    | some body =>
      by_cases hok : a.status = 200
      · have hout : outcome ob.cfg a e.time.head = grantOutcome ob.cfg body e.time.head := by
          simp [outcome, hrc, hok, hbody, show retriableStatus 200 = false by decide]
        obtain ⟨e', haccept, hreads⟩ := acceptGrant_spec ob body he
        refine ⟨e', ?_, hreads, ?_⟩
        · unfold Outbound.settle granted
          rw [hout, hbody]
          simp only [classify, hrc, hbody, hok]
          rw [apply_ite ob.take] 
          exact haccept
        · rw [hout]
          intro h
          exact absurd h (grantOutcome_ne_retriable _ _ _)
      · cases hstatus : retriableStatus a.status with
        | true =>
          refine hkept (o := .retriable) ?_ (by simp) ?_
          · simp [outcome, hstatus]
          · simp only [classify, hrc, hbody, hok, hstatus]
            rfl
        | false =>
          have hout : outcome ob.cfg a e.time.head =
              .deadLetter a.status (jsonString? body "error") := by
            simp [outcome, hrc, hstatus, hbody, hok]
          obtain ⟨e₁, herror, hd⟩ := yields_dupOrNull (jsonString? body "error") e he
          refine ⟨e₁, ?_, Reads.of_draws he hd, ?_⟩
          · rw [settle_of_ne_ok (by simp [hout]), hout]
            simp only [classify, hrc, hbody, hok, hstatus]
            rw [jsonGetString_eq]
            exact Prog.bind_of_ok herror
          · rw [hout]
            intro h
            cases h
  · refine hkept (o := .retriable) ?_ (by simp) ?_
    · simp [outcome, hrc]
    · exact congrFun (if_pos hrc) e

/-- One attempt: the request is made once, its answer is the next one, and the clock is read
at most once, not at all when the attempt may be repeated. -/
theorem refreshLocked_spec (ob : Outbound) (scope : String) (he : e.AllocOk) :
    ∃ e', refreshLocked ob scope e = .ok ((outcome ob.cfg e.token.head e.time.head,
        ob.settle e.token.head e.time.head), e') ∧ e'.AllocOk ∧ e'.token = e.token.tail ∧
      e'.effects = e.effects ++ [tokenRequest ob.cfg scope] ∧
      (outcome ob.cfg e.token.head e.time.head = .retriable → e'.time = e.time) := by
  obtain ⟨e₁, hform, hd₁⟩ := yields_buildFormBody ob.cfg scope e he
  obtain ⟨e₂, hauth, hd₂⟩ := yields_dupOrNull (auth? ob.cfg) e₁ (hd₁.allocOk he)
  have hd := hd₁.trans hd₂
  have hreads := Reads.of_draws he hd
  -- the environment behind the request
  let e₃ : Env := { e₂ with
    token := e₂.token.tail
    effects := e₂.effects ++ [tokenRequest ob.cfg scope] }
  have hask : askToken ob.cfg.tokenUrl (form ob.cfg scope) (auth? ob.cfg) e₂ =
      .ok (e.token.head, e₃) := by
    rw [← hreads.token]
    rfl
  have hclock : e₂.time = e.time := time_eq_of_draws hd
  have htime : e₃.time = e.time := hclock
  obtain ⟨e', hclassify, hreads', htime'⟩ :=
    classify_spec ob e.token.head (e := e₃) hreads.alloc
  rw [htime] at hclassify htime'
  refine ⟨e', ?_, hreads'.alloc, ?_, ?_, htime'⟩
  · unfold refreshLocked
    rw [Prog.bind_of_ok hform]
    dsimp only
    rw [basicAuth_eq, Prog.bind_of_ok hauth, Prog.bind_of_ok hask]
    exact hclassify
  · rw [hreads'.token, ← hreads.token]
  · rw [hreads'.effects, ← hreads.effects]

end refresh

section loop

theorem backoffDelayMs_eq (cfg : OwnedConfig) (n delay : ℕ) :
    backoffDelayMs cfg n delay = min (delay * 2 ^ n) cfg.backoffMaxMs := by
  induction n generalizing delay with
  | zero => simp [backoffDelayMs]
  | succ n ih =>
    unfold backoffDelayMs
    split_ifs with h
    · symm
      apply min_eq_right
      calc cfg.backoffMaxMs ≤ delay * 2 := h
        _ ≤ delay * 2 ^ (n + 1) := Nat.mul_le_mul_left delay (Nat.le_self_pow (by simp) 2)
    · rw [ih, pow_succ, mul_assoc, mul_comm (2 ^ n) 2]

def Refresh.isDeadLetter : Refresh → Bool
  | .deadLetter _ _ => true
  | _ => false

/-- What the operator is told of an attempt. -/
def signals (ob : Outbound) : Refresh → List Effect
  | .deadLetter status err => if ob.deadLetterCb then [.deadLetterSignal status err] else []
  | _ => []

/-- What the answer to the `k`-th request from `e` on comes to. -/
def outcomeAt (cfg : OwnedConfig) (e : Env) (k : ℕ) : Refresh :=
  outcome cfg (e.token.get k) e.time.head

/-- A request that may be repeated, and the pause behind it. -/
def repeated (cfg : OwnedConfig) (scope : String) (k : ℕ) : List Effect :=
  [tokenRequest cfg scope, .backoffSleep (min (cfg.backoffBaseMs * 2 ^ k) cfg.backoffMaxMs)]

/-- The handle behind `m` repeated requests and a last one. -/
def Outbound.ended (ob : Outbound) (m : ℕ) (a : TokenAnswer) (now : ℤ) : Outbound :=
  { ob.settle a now with
    retryCount := ob.retryCount + UInt32.ofNat m
    deadLetterCount := ob.deadLetterCount +
      if (outcome ob.cfg a now).isDeadLetter then 1 else 0 }

theorem ended_retried (ob : Outbound) (m : ℕ) (a : TokenAnswer) (now : ℤ) :
    ({ ob with retryCount := ob.retryCount + 1 } : Outbound).ended m a now =
      ob.ended (m + 1) a now := by
  have hcount : ob.retryCount + 1 + UInt32.ofNat m = ob.retryCount + UInt32.ofNat (m + 1) := by
    rw [UInt32.ofNat_add, UInt32.add_assoc, UInt32.add_comm 1]
    rfl
  unfold Outbound.ended Outbound.settle
  cases granted ob.cfg a now with
  | none => simp [Outbound.take, hcount]
  | some g => simp [Outbound.take, hcount]

theorem ended_zero {ob : Outbound} {a : TokenAnswer} {now : ℤ}
    (h : (outcome ob.cfg a now).isDeadLetter = false) : ob.ended 0 a now = ob.settle a now := by
  unfold Outbound.ended Outbound.settle
  cases granted ob.cfg a now with
  | none => simp [Outbound.take, h]
  | some g => simp [Outbound.take, h]

theorem ended_zero_of_deadLetter {ob : Outbound} {a : TokenAnswer} {now status : ℤ}
    {err : Option String} (h : outcome ob.cfg a now = .deadLetter status err) :
    ob.ended 0 a now = { ob with deadLetterCount := ob.deadLetterCount + 1 } := by
  have hne : outcome ob.cfg a now ≠ .ok := by simp [h]
  unfold Outbound.ended
  rw [settle_of_ne_ok hne, h]
  simp [Refresh.isDeadLetter]

theorem recordDeadLetterLocked_eq (ob : Outbound) (status : ℤ) (err : Option String) (e : Env) :
    recordDeadLetterLocked ob status err e =
      .ok ({ ob with deadLetterCount := ob.deadLetterCount + 1 },
        { e with effects := e.effects ++ signals ob (.deadLetter status err) }) := by
  unfold recordDeadLetterLocked signals
  cases ob.deadLetterCb with
  | true => rfl
  | false =>
    simp only [Bool.false_eq_true, if_false, List.append_nil]
    rfl

theorem acquireLoop_spec (scope : String) (left attempt : ℕ) (hleft : 0 < left) (ob : Outbound)
    {e : Env} (he : e.AllocOk) :
    ∃ m e', m < left ∧ (∀ k < m, outcomeAt ob.cfg e k = .retriable) ∧
      (outcomeAt ob.cfg e m = .retriable → m + 1 = left) ∧
      acquireLoop scope left attempt ob e =
        .ok ((decide (outcomeAt ob.cfg e m = .ok), ob.ended m (e.token.get m) e.time.head), e') ∧
      e'.AllocOk ∧ e'.token = e.token.drop (m + 1) ∧
      e'.effects = e.effects ++
        ((List.range m).flatMap fun k => repeated ob.cfg scope (attempt + k)) ++
        tokenRequest ob.cfg scope :: signals ob (outcomeAt ob.cfg e m) := by
  induction left generalizing attempt ob e with
  | zero => exact absurd hleft (lt_irrefl 0)
  | succ left ih =>
    obtain ⟨e₁, hrun, he₁, htoken, heffects, htime⟩ := refreshLocked_spec ob scope he
    have hzero : outcomeAt ob.cfg e 0 = outcome ob.cfg e.token.head e.time.head := rfl
    unfold acquireLoop
    rw [Prog.bind_of_ok hrun]
    dsimp only
    cases hout : outcome ob.cfg e.token.head e.time.head with
    | ok =>
      have hended : ob.ended 0 (e.token.get 0) e.time.head = ob.settle e.token.head e.time.head :=
        ended_zero (a := e.token.head) (by rw [hout]; rfl)
      refine ⟨0, e₁, by omega, by omega, ?_, ?_, he₁, htoken, ?_⟩
      · rw [hzero, hout]
        intro h
        cases h
      · rw [hended, hzero, hout]
        rfl
      · rw [heffects, hzero, hout]
        simp [signals]
    | deadLetter status err =>
      have hended : ob.ended 0 (e.token.get 0) e.time.head = _ :=
        ended_zero_of_deadLetter (a := e.token.head) hout
      refine ⟨0, { e₁ with effects := e₁.effects ++ signals ob (.deadLetter status err) },
        by omega, by omega, ?_, ?_, he₁, htoken, ?_⟩
      · rw [hzero, hout]
        intro h
        cases h
      · rw [hended, hzero, hout, settle_of_ne_ok (by simp [hout])]
        dsimp only
        rw [Prog.bind_of_ok (recordDeadLetterLocked_eq ob status err e₁)]
        rfl
      · rw [heffects, hzero, hout]
        simp
    | retriable =>
      rw [settle_of_ne_ok (by simp [hout])]
      dsimp only
      by_cases hlast : 0 < left
      · rw [if_pos hlast]
        let e₂ : Env := { e₁ with effects := e₁.effects ++
          [.backoffSleep (backoffDelayMs ob.cfg attempt ob.cfg.backoffBaseMs)] }
        obtain ⟨m, e', hm, hearlier, hstops, hloop, he', htoken', heffects'⟩ :=
          ih (attempt + 1) hlast { ob with retryCount := ob.retryCount + 1 } (e := e₂) he₁
        have hshift (k : ℕ) : outcomeAt ob.cfg e₂ k = outcomeAt ob.cfg e (k + 1) := by
          unfold outcomeAt
          rw [show e₂.token = e.token.tail from htoken, show e₂.time = e.time from htime hout]
          rfl
        have hget : e₂.token.get m = e.token.get (m + 1) := by
          rw [show e₂.token = e.token.tail from htoken]
          rfl
        refine ⟨m + 1, e', by omega, ?_, ?_, ?_, he', ?_, ?_⟩
        · intro k hk
          cases k with
          | zero => rw [hzero, hout]
          | succ k => rw [← hshift, hearlier k (by omega)]
        · intro h
          rw [← hshift] at h
          rw [hstops h]
        · rw [← hshift, ← ended_retried, ← hget, ← show e₂.time = e.time from htime hout]
          exact hloop
        · rw [htoken', show e₂.token = e.token.tail from htoken]
          rfl
        · have heffects₂ : e₂.effects = e.effects ++ repeated ob.cfg scope attempt := by
            change e₁.effects ++ _ = _
            rw [heffects, backoffDelayMs_eq, List.append_assoc]
            rfl
          have hindex (k : ℕ) : attempt + 1 + k = attempt + k.succ := by omega
          rw [heffects', heffects₂, ← hshift, List.range_succ_eq_map, List.flatMap_cons,
            List.flatMap_map]
          simp only [hindex, Nat.add_zero, List.append_assoc]
          rfl
      · rw [if_neg hlast]
        have hended : ob.ended 0 (e.token.get 0) e.time.head =
            ob.settle e.token.head e.time.head :=
          ended_zero (a := e.token.head) (by rw [hout]; rfl)
        refine ⟨0, e₁, by omega, by omega, fun _ => by omega, ?_, he₁, htoken, ?_⟩
        · rw [hended, hzero, hout, settle_of_ne_ok (by simp [hout])]
          rfl
        · rw [heffects, hzero, hout]
          simp [signals]

end loop

section any

/-- Neither a request was answered nor an effect made between the two. -/
def Calm (e e' : Env) : Prop := e'.token = e.token ∧ e'.effects = e.effects

theorem Calm.refl (e : Env) : Calm e e := ⟨rfl, rfl⟩

theorem Calm.trans {e e' e'' : Env} (h : Calm e e') (h' : Calm e' e'') : Calm e e'' :=
  ⟨h'.1.trans h.1, h'.2.trans h.2⟩

theorem calm_of_gives {α : Type} {F : Fault → Prop} {P : α → Prop} {m : Run α}
    (h : Gives F P m) : Prog.Within Calm m := by
  intro e a e' hm
  obtain ⟨n, rfl⟩ := (h.of_ok hm).2
  exact ⟨rfl, rfl⟩

theorem calm_pure {α : Type} (a : α) : Prog.Within Calm (pure a : Run α) :=
  Prog.Within.pure Calm.refl a

theorem calm_bind {α β : Type} {m : Run α} {f : α → Run β} (hm : Prog.Within Calm m)
    (hf : ∀ a, Prog.Within Calm (f a)) : Prog.Within Calm (m >>= f) :=
  Prog.Within.bind (R := Calm) (fun h h' => h.trans h') hm hf

theorem calm_jsonGetString (body key : String) : Prog.Within Calm (jsonGetString body key) := by
  rw [jsonGetString_eq]
  exact calm_of_gives (gives_dupOrNull (F := fun _ => True) _)

theorem calm_resolveExpiry (cfg : OwnedConfig) (body token : String) (now : ℤ) :
    Prog.Within Calm (resolveExpiry cfg body token now) := by
  have hjws : Prog.Within Calm (jwsExp token) := by
    unfold jwsExp
    cases jwsPayload token.toList with
    | none => exact calm_pure none
    | some payload =>
      refine calm_bind (calm_bind (calm_of_gives (gives_alloc (F := fun _ => True))) ?_) ?_
      · intro b
        cases b <;> exact calm_pure _
      · intro text
        cases text <;> exact calm_pure _
  refine calm_bind hjws fun exp => ?_
  cases exp with
  | none => exact calm_pure _
  | some exp =>
    dsimp only
    split_ifs <;> exact calm_pure _

theorem calm_buildFormBody (cfg : OwnedConfig) (scope : String) :
    Prog.Within Calm (buildFormBody cfg scope) := by
  have hget (s : String) : Prog.Within Calm (allocated s) :=
    calm_of_gives (gives_allocated (F := fun _ => True) s)
  refine calm_bind (calm_of_gives (gives_alloc (F := fun _ => True))) fun b => ?_
  cases b with
  | false => exact calm_pure none
  | true =>
    refine calm_bind (hget _) fun escScope => calm_bind (hget _) fun escId => ?_
    refine calm_bind ?_ fun escSecret => hget _
    unfold escapedSecret
    split
    · exact hget _
    · exact calm_pure none

/-- The answer carries a token, and the cache holds it. -/
def Granted (ob : Outbound) (a : TokenAnswer) (ob' : Outbound) : Prop :=
  ∃ body token expiry, a = ⟨0, 200, some body⟩ ∧ jsonString? body "access_token" = some token ∧
    ob' = { ob with cachedToken := some token, cachedExpiry := expiry }

/-- Whatever fails on the way, the cache is what it was or holds a granted token. -/
def Settled (ob : Outbound) (a : TokenAnswer) (r : Refresh × Outbound) : Prop :=
  r.1 ≠ .ok ∧ r.2 = ob ∨ r.1 = .ok ∧ Granted ob a r.2

variable {ob : Outbound} {e e' : Env}

theorem acceptToken_settled {body : String} {r : Refresh × Outbound}
    (h : acceptGrant.acceptToken ob body e = .ok (r, e')) :
    Settled ob ⟨0, 200, some body⟩ r ∧ Calm e e' := by
  unfold acceptGrant.acceptToken at h
  obtain ⟨token, e₁, htoken, h⟩ := Prog.bind_eq_ok.1 h
  obtain ⟨type, e₂, htype, h⟩ := Prog.bind_eq_ok.1 h
  have hcalm : Calm e e₂ :=
    (calm_jsonGetString _ _ _ _ _ htoken).trans (calm_jsonGetString _ _ _ _ _ htype)
  rw [jsonGetString_eq] at htoken
  have hread := ((gives_dupOrNull (F := fun _ => True) _).of_ok htoken).1
  cases token with
  | none =>
    cases h
    exact ⟨Or.inl ⟨by simp, rfl⟩, hcalm⟩
  | some token =>
    cases type with
    | none =>
      cases h
      exact ⟨Or.inl ⟨by simp, rfl⟩, hcalm⟩
    | some type =>
      dsimp only at h
      split_ifs at h with hbearer
      · obtain ⟨now, e₃, hnow, h⟩ := Prog.bind_eq_ok.1 h
        obtain ⟨expiry, e₄, hexpiry, h⟩ := Prog.bind_eq_ok.1 h
        cases hnow
        have hclock : Calm e₂ { e₂ with time := e₂.time.tail } := ⟨rfl, rfl⟩
        have hcalm₄ := (hcalm.trans hclock).trans (calm_resolveExpiry _ _ _ _ _ _ _ hexpiry)
        cases expiry with
        | none =>
          cases h
          exact ⟨Or.inl ⟨by simp, rfl⟩, hcalm₄⟩
        | some expiry =>
          cases h
          refine ⟨Or.inr ⟨rfl, body, token, expiry, rfl, ?_, rfl⟩, hcalm₄⟩
          exact (hread.resolve_left (by simp)).symm
      · cases h
        exact ⟨Or.inl ⟨by simp, rfl⟩, hcalm⟩

theorem acceptGrant_settled {body : String} {r : Refresh × Outbound}
    (h : acceptGrant ob body e = .ok (r, e')) :
    Settled ob ⟨0, 200, some body⟩ r ∧ Calm e e' := by
  unfold acceptGrant at h
  obtain ⟨err, e₁, herr, h⟩ := Prog.bind_eq_ok.1 h
  have hcalm := calm_jsonGetString _ _ _ _ _ herr
  have hnext (h : acceptGrant.acceptToken ob body e₁ = .ok (r, e')) :
      Settled ob ⟨0, 200, some body⟩ r ∧ Calm e e' := by
    obtain ⟨hset, hcalm'⟩ := acceptToken_settled h
    exact ⟨hset, hcalm.trans hcalm'⟩
  cases err with
  | none => exact hnext h
  | some err =>
    dsimp only at h
    split_ifs at h with hempty
    · cases h
      exact ⟨Or.inl ⟨by simp, rfl⟩, hcalm⟩
    · exact hnext h

theorem classify_settled {a : TokenAnswer} {r : Refresh × Outbound}
    (h : classify ob a e = .ok (r, e')) : Settled ob a r ∧ Calm e e' := by
  unfold classify at h
  by_cases hrc : a.rc = 0
  · rw [if_neg (not_not.2 hrc)] at h
    cases hbody : a.body with
    | none =>
      rw [hbody] at h
      dsimp only at h
      split_ifs at h <;> cases h <;> exact ⟨Or.inl ⟨by simp, rfl⟩, .refl e⟩
    | some body =>
      rw [hbody] at h
      dsimp only at h
      split_ifs at h with hok hagain
      · have ha : a = ⟨0, 200, some body⟩ := by
          cases a
          simp_all
        rw [ha]
        exact acceptGrant_settled h
      · cases h
        exact ⟨Or.inl ⟨by simp, rfl⟩, .refl e⟩
      · obtain ⟨err, e₁, herr, h⟩ := Prog.bind_eq_ok.1 h
        cases h
        exact ⟨Or.inl ⟨by simp, rfl⟩, calm_jsonGetString _ _ _ _ _ herr⟩
  · rw [if_pos hrc] at h
    cases h
    exact ⟨Or.inl ⟨by simp, rfl⟩, .refl e⟩

/-- How many token requests were made. -/
def posts (effects : List Effect) : ℕ :=
  effects.countP fun
    | .tokenPost _ _ _ => true
    | _ => false

/-- An attempt without a form makes no request, any other one makes one. -/
theorem refreshLocked_settled {scope : String} {r : Refresh × Outbound}
    (h : refreshLocked ob scope e = .ok (r, e')) :
    (r = (.retriable, ob) ∧ Calm e e') ∨
      Settled ob e.token.head r ∧ e'.token = e.token.tail ∧
        ∃ form auth, e'.effects = e.effects ++ [.tokenPost ob.cfg.tokenUrl form auth] := by
  unfold refreshLocked at h
  obtain ⟨o, e₁, hform, h⟩ := Prog.bind_eq_ok.1 h
  have hcalm : Calm e e₁ := calm_buildFormBody _ _ _ _ _ hform
  cases o with
  | none =>
    cases h
    exact Or.inl ⟨rfl, hcalm⟩
  | some form =>
    obtain ⟨auth, e₂, hauth, h⟩ := Prog.bind_eq_ok.1 h
    rw [basicAuth_eq] at hauth
    have hcalm₂ := hcalm.trans (calm_of_gives (gives_dupOrNull (F := fun _ => True) _) _ _ _ hauth)
    obtain ⟨a, e₃, hask, h⟩ := Prog.bind_eq_ok.1 h
    cases hask
    obtain ⟨hset, hcalm'⟩ := classify_settled h
    refine Or.inr ⟨?_, ?_, form, auth, ?_⟩
    · rw [← hcalm₂.1]
      exact hset
    · rw [hcalm'.1, ← hcalm₂.1]
    · rw [hcalm'.2, ← hcalm₂.2]

theorem posts_append (xs ys : List Effect) : posts (xs ++ ys) = posts xs + posts ys :=
  List.countP_append

theorem Settled.cache {a : TokenAnswer} {o : Refresh} {ob' : Outbound}
    (h : Settled ob a (o, ob')) : ob'.cfg = ob.cfg ∧
      (o ≠ .ok → ob'.cachedToken = ob.cachedToken ∧ ob'.cachedExpiry = ob.cachedExpiry) := by
  rcases h with ⟨hne, rfl⟩ | ⟨hok, body, token, expiry, -, -, rfl⟩
  · exact ⟨rfl, fun _ => ⟨rfl, rfl⟩⟩
  · exact ⟨rfl, fun hne => absurd hok hne⟩

/-- Whatever is refused on the way, the loop stays within its budget and leaves the cache
alone unless it ends well. The token is then the one of the last answer. -/
theorem acquireLoop_settled {scope : String} {left attempt : ℕ} {got : Bool} {ob' : Outbound}
    (h : acquireLoop scope left attempt ob e = .ok ((got, ob'), e')) :
    ob'.cfg = ob.cfg ∧ posts e'.effects ≤ posts e.effects + left ∧
      (got = false → ob'.cachedToken = ob.cachedToken ∧ ob'.cachedExpiry = ob.cachedExpiry) ∧
      (got = true → ∃ k body token, posts e'.effects = posts e.effects + (k + 1) ∧
        e.token.get k = ⟨0, 200, some body⟩ ∧ jsonString? body "access_token" = some token ∧
        ob'.cachedToken = some token) := by
  induction left generalizing attempt ob e with
  | zero =>
    cases h
    exact ⟨rfl, by omega, fun _ => ⟨rfl, rfl⟩, by simp⟩
  | succ left ih =>
    unfold acquireLoop at h
    obtain ⟨⟨o, ob₁⟩, e₁, hrun, h⟩ := Prog.bind_eq_ok.1 h
    have hrefresh := refreshLocked_settled hrun
    have hposts : posts e₁.effects ≤ posts e.effects + 1 := by
      rcases hrefresh with ⟨-, hcalm⟩ | ⟨-, -, form, auth, heffects⟩
      · rw [hcalm.2]
        omega
      · rw [heffects, posts_append]
        exact le_refl _
    have hset : ob₁.cfg = ob.cfg ∧ (o ≠ .ok → ob₁.cachedToken = ob.cachedToken ∧
        ob₁.cachedExpiry = ob.cachedExpiry) := by
      rcases hrefresh with ⟨hr, -⟩ | ⟨hset, -⟩
      · cases hr
        exact ⟨rfl, fun _ => ⟨rfl, rfl⟩⟩
      · exact hset.cache
    dsimp only at h
    cases o with
    | ok =>
      cases h
      refine ⟨hset.1, by omega, by simp, fun _ => ?_⟩
      rcases hrefresh with ⟨hr, -⟩ |
        ⟨⟨hne, -⟩ | ⟨-, body, token, expiry, ha, htoken, rfl⟩, -, form, auth, heffects⟩
      · cases hr
      · exact absurd rfl hne
      · refine ⟨0, body, token, ?_, ha, htoken, rfl⟩
        rw [heffects, posts_append]
        rfl
    | deadLetter status err =>
      dsimp only at h
      rw [Prog.bind_of_ok (recordDeadLetterLocked_eq ob₁ status err e₁)] at h
      cases h
      refine ⟨hset.1, ?_, fun _ => hset.2 (by simp), by simp⟩
      have hsignal : posts (signals ob₁ (.deadLetter status err)) = 0 := by
        unfold signals
        split_ifs <;> rfl
      rw [posts_append, hsignal]
      omega
    | retriable =>
      dsimp only at h
      split_ifs at h with hleft
      · obtain ⟨hcfg, hbudget, hkept, hgot⟩ := ih h
        have hsleep : posts (e₁.effects ++ [.backoffSleep
            (backoffDelayMs ob₁.cfg attempt ob₁.cfg.backoffBaseMs)]) = posts e₁.effects := by
          rw [posts_append]
          rfl
        refine ⟨hcfg.trans hset.1, ?_, fun hno => ?_, fun hyes => ?_⟩
        · change _ ≤ posts (e₁.effects ++ [_]) + left at hbudget
          omega
        · obtain ⟨h₁, h₂⟩ := hset.2 (by simp)
          exact ⟨(hkept hno).1.trans h₁, (hkept hno).2.trans h₂⟩
        · obtain ⟨k, body, token, hcount, ha, hrest⟩ := hgot hyes
          change posts e'.effects = posts (e₁.effects ++ [_]) + (k + 1) at hcount
          rw [hsleep] at hcount
          rcases hrefresh with ⟨-, hcalm⟩ | ⟨-, htail, form, auth, heffects⟩
          · refine ⟨k, body, token, ?_, (congrArg (·.get k) hcalm.1).symm.trans ha, hrest⟩
            rw [hcount, hcalm.2]
          · refine ⟨k + 1, body, token, ?_, (congrArg (·.get k) htail).symm.trans ha, hrest⟩
            rw [hcount, heffects, posts_append]
            change _ + 1 + _ = _
            omega
      · cases h
        exact ⟨hset.1, by omega, fun _ => hset.2 (by simp), by simp⟩

end any

end Nssf.OAuth
