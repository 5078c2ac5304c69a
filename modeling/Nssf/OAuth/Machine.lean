import Nssf.OAuth.Acquire

/-! What one call of the token cache does, for every configuration that its constructors take
and every state of the cache. A disabled handle does nothing. An enabled one asks for a token
only when the cached one is not fresh, and then goes through the machine of the attempts. -/

namespace Nssf.OAuth

open Base Run

section calls

/-- A configuration that one of the two constructors takes. -/
def Accepted (cfg : OwnedConfig) : Prop :=
  ∃ c allowInsecureLoopback e ob e',
    createWithSchemePolicy c allowInsecureLoopback e = .ok (some ob, e') ∧ ob.cfg = cfg

theorem nz_pos (v : UInt32) {dflt : UInt32} (h : 0 < dflt.toNat) : 0 < nz v dflt := by
  unfold nz
  split_ifs with hv
  · exact h
  · rw [Nat.pos_iff_ne_zero]
    intro hz
    exact hv (UInt32.toNat_inj.1 hz)

/-- A new handle may try at least once, and its cache is empty. -/
theorem createWithSchemePolicy_spec {c : OutboundConfig} {loopback : Bool} {e e' : Env}
    {ob : Outbound} (h : createWithSchemePolicy c loopback e = .ok (some ob, e')) :
    0 < ob.cfg.maxAttempts ∧ ob.cachedToken = none := by
  unfold createWithSchemePolicy at h
  split_ifs at h with hok
  · obtain ⟨b, e₁, -, h⟩ := Prog.bind_eq_ok.1 h
    cases b with
    | false => cases h
    | true =>
      obtain ⟨tokenUrl, e₂, -, h⟩ := Prog.bind_eq_ok.1 h
      obtain ⟨nfInstanceId, e₃, -, h⟩ := Prog.bind_eq_ok.1 h
      obtain ⟨secretRef, e₄, -, h⟩ := Prog.bind_eq_ok.1 h
      obtain ⟨defaultScope, e₅, -, h⟩ := Prog.bind_eq_ok.1 h
      split at h
      · cases h
        exact ⟨nz_pos _ (by decide), rfl⟩
      · cases h
  · cases h

theorem Accepted.maxAttempts_pos {cfg : OwnedConfig} (h : Accepted cfg) : 0 < cfg.maxAttempts := by
  obtain ⟨c, loopback, e, ob, e', hrun, rfl⟩ := h
  exact (createWithSchemePolicy_spec hrun).1

/-- The clock was read once more. -/
def clockRead (e : Env) : Env := { e with time := e.time.tail }

/-- What the attempts of a call from `e` on come to, the last of them the `m`-th. -/
structure Attempted (ob : Outbound) (scope : String) (e : Env) (m : ℕ) (ob' : Outbound)
    (e' : Env) : Prop where
  within : m < ob.cfg.maxAttempts
  earlier : ∀ k < m, outcomeAt ob.cfg e k = .retriable
  stops : outcomeAt ob.cfg e m = .retriable → m + 1 = ob.cfg.maxAttempts
  effects : e'.effects = e.effects ++ ((List.range m).flatMap fun k => repeated ob.cfg scope k) ++
    tokenRequest ob.cfg scope :: signals ob (outcomeAt ob.cfg e m)
  answers : e'.token = e.token.drop (m + 1)
  kept : outcomeAt ob.cfg e m ≠ .ok →
    ob'.cachedToken = ob.cachedToken ∧ ob'.cachedExpiry = ob.cachedExpiry
  taken : outcomeAt ob.cfg e m = .ok → ∃ body token expiry,
    e.token.get m = ⟨0, 200, some body⟩ ∧
    grant? ob.cfg body e.time.head = some (token, expiry) ∧
    ob'.cachedToken = some token ∧ ob'.cachedExpiry = expiry
  retries : ob'.retryCount = ob.retryCount + UInt32.ofNat m
  deadLetters : ob'.deadLetterCount = ob.deadLetterCount +
    if (outcomeAt ob.cfg e m).isDeadLetter then 1 else 0
  cfg : ob'.cfg = ob.cfg

theorem granted_of_ok {cfg : OwnedConfig} {a : TokenAnswer} {now : ℤ}
    (h : outcome cfg a now = .ok) : ∃ body token expiry, a = ⟨0, 200, some body⟩ ∧
      grant? cfg body now = some (token, expiry) ∧ granted cfg a now = some (token, expiry) := by
  have hgranted : granted cfg a now = a.body.bind fun body => grant? cfg body now := if_pos h
  unfold outcome at h
  split_ifs at h with hrc hagain hok
  · cases hbody : a.body with
    | none => simp [hbody] at h
    | some body =>
      simp only [hbody] at h
      have hsome : (grant? cfg body now).isSome = true := by
        unfold grantOutcome at h
        split at h
        · cases h
        · split_ifs at h with hsome
          exact hsome
      obtain ⟨⟨token, expiry⟩, hgrant⟩ := Option.isSome_iff_exists.1 hsome
      refine ⟨body, token, expiry, ?_, hgrant, ?_⟩
      · cases a
        simp_all
      · rw [hgranted, hbody]
        exact hgrant
  · cases hbody : a.body with
    | none => simp [hbody] at h
    | some body => simp [hbody] at h

theorem ended_cfg (ob : Outbound) (m : ℕ) (a : TokenAnswer) (now : ℤ) :
    (ob.ended m a now).cfg = ob.cfg := by
  unfold Outbound.ended Outbound.settle
  cases granted ob.cfg a now with
  | none => rfl
  | some g => rfl

theorem acquireLoop_attempted (scope : String) {ob : Outbound} (h : 0 < ob.cfg.maxAttempts)
    {e : Env} (he : e.AllocOk) :
    ∃ m ob' e', acquireLoop scope ob.cfg.maxAttempts 0 ob e =
        .ok ((decide (outcomeAt ob.cfg e m = .ok), ob'), e') ∧ e'.AllocOk ∧
      Attempted ob scope e m ob' e' := by
  obtain ⟨m, e', hm, hearlier, hstops, hrun, he', htoken, heffects⟩ :=
    acquireLoop_spec scope ob.cfg.maxAttempts 0 h ob he
  refine ⟨m, _, e', hrun, he', hm, hearlier, hstops, ?_, htoken, fun hne => ?_, fun hok => ?_,
    rfl, rfl, ended_cfg _ _ _ _⟩
  · simpa only [Nat.zero_add] using heffects
  · have hsettle : ob.settle (e.token.get m) e.time.head = ob := settle_of_ne_ok hne
    unfold Outbound.ended
    rw [hsettle]
    exact ⟨rfl, rfl⟩
  · obtain ⟨body, token, expiry, ha, hgrant, hgranted⟩ := granted_of_ok hok
    refine ⟨body, token, expiry, ha, hgrant, ?_⟩
    unfold Outbound.ended Outbound.settle
    rw [hgranted]
    exact ⟨rfl, rfl⟩

/-- One call on an enabled handle. A fresh token is handed out as it is, without a request.
Otherwise a token is handed out if the last attempt ends well. -/
inductive Turn (ob : Outbound) (scope : String) (e : Env) : Option String → Outbound → Env → Prop
  | cached {token : String} {e' : Env} (fresh : cachedTokenFresh ob e.time.head = true)
      (held : ob.cachedToken = some token) (still : Calm e e') :
      Turn ob scope e (some token) ob e'
  | asked {m : ℕ} {ob' : Outbound} {e' : Env} (stale : cachedTokenFresh ob e.time.head = false)
      (attempts : Attempted ob scope (clockRead e) m ob' e') :
      Turn ob scope e
        (if outcomeAt ob.cfg (clockRead e) m = .ok then ob'.cachedToken else none) ob' e'

theorem Turn.of_calm {ob ob' : Outbound} {scope : String} {e e₁ e₂ : Env}
    {bearer : Option String} (h : Turn ob scope e bearer ob' e₁) (hcalm : Calm e₁ e₂) :
    Turn ob scope e bearer ob' e₂ := by
  cases h with
  | cached fresh held still => exact .cached fresh held (still.trans hcalm)
  | asked stale attempts =>
    exact .asked stale
      { attempts with
        effects := hcalm.2.trans attempts.effects
        answers := hcalm.1.trans attempts.answers }

theorem calm_of_draws {e e' : Env} (h : e.Draws e') : Calm e e' := by
  obtain ⟨n, rfl⟩ := h
  exact ⟨rfl, rfl⟩

theorem ensureFresh_eq (ob : Outbound) (scope : String) (e : Env) :
    ensureFresh ob scope e =
      if cachedTokenFresh ob e.time.head then .ok ((true, ob), clockRead e)
      else acquireLoop scope ob.cfg.maxAttempts 0 ob (clockRead e) := by
  change (if cachedTokenFresh ob e.time.head then _ else _ : Run (Bool × Outbound)) _ = _
  split_ifs <;> rfl

theorem acquireOwnedCopyLocked_turn (scope : String) {ob : Outbound}
    (h : 0 < ob.cfg.maxAttempts) {e : Env} (he : e.AllocOk) :
    ∃ bearer ob' e', acquireOwnedCopyLocked ob scope e = .ok ((bearer, ob'), e') ∧
      e'.AllocOk ∧ Turn ob scope e bearer ob' e' := by
  have hclock : (clockRead e).AllocOk := he
  cases hfresh : cachedTokenFresh ob e.time.head with
  | true =>
    have hensure : ensureFresh ob scope e = .ok ((true, ob), clockRead e) := by
      rw [ensureFresh_eq, if_pos hfresh]
    obtain ⟨token, htoken⟩ : ∃ token, ob.cachedToken = some token := by
      unfold cachedTokenFresh at hfresh
      rw [Bool.and_eq_true] at hfresh
      exact Option.isSome_iff_exists.1 hfresh.1
    obtain ⟨e', hcopy, hd⟩ := yields_allocated token _ hclock
    have hstill : Calm e e' := calm_of_draws (e := clockRead e) hd
    refine ⟨some token, ob, e', ?_, hd.allocOk hclock, .cached hfresh htoken hstill⟩
    unfold acquireOwnedCopyLocked
    rw [Prog.bind_of_ok hensure]
    simp only [htoken]
    rw [Prog.bind_of_ok hcopy]
    rfl
  | false =>
    obtain ⟨m, ob', e₁, hloop, he₁, hatt⟩ := acquireLoop_attempted scope h hclock
    have hensure : ensureFresh ob scope e =
        .ok ((decide (outcomeAt ob.cfg (clockRead e) m = .ok), ob'), e₁) := by
      rw [ensureFresh_eq, hfresh, if_neg Bool.false_ne_true, hloop]
    by_cases hok : outcomeAt ob.cfg (clockRead e) m = .ok
    · obtain ⟨body, token, expiry, -, -, htoken, -⟩ := hatt.taken hok
      obtain ⟨e', hcopy, hd⟩ := yields_allocated token e₁ he₁
      have hturn : Turn ob scope e (some token) ob' e' := by
        have h := (Turn.asked hfresh hatt).of_calm (calm_of_draws hd)
        rw [if_pos hok, htoken] at h
        exact h
      refine ⟨some token, ob', e', ?_, hd.allocOk he₁, hturn⟩
      unfold acquireOwnedCopyLocked
      rw [Prog.bind_of_ok hensure]
      simp only [hok, decide_true, htoken]
      rw [Prog.bind_of_ok hcopy]
      rfl
    · have hturn := Turn.asked hfresh hatt
      rw [if_neg hok] at hturn
      refine ⟨none, ob', e₁, ?_, he₁, hturn⟩
      unfold acquireOwnedCopyLocked
      rw [Prog.bind_of_ok hensure]
      simp only [hok, decide_false]
      rfl

/-- What `attach_bearer` answers for the bearer it acquired. -/
def attached (headers : List String) : Option String → Attach
  | some token => .ok (headers ++ [bearerLine token])
  | none => .abort

/-- The list of the caller behind the call. -/
def Attach.list (headers : List String) : Attach → List String
  | .ok headers' => headers'
  | _ => headers

variable {ob : Outbound} {e : Env}

theorem acquire_turn (h : 0 < ob.cfg.maxAttempts) (hon : ob.cfg.enabled = true)
    (override : Option String) (he : e.AllocOk) :
    ∃ bearer ob' e', acquire ob override e =
        .ok ((if bearer.isSome then .ok [] else .abort, bearer, ob'), e') ∧
      Turn ob (override.getD ob.cfg.defaultScope) e bearer ob' e' := by
  obtain ⟨bearer, ob', e', hrun, -, hturn⟩ :=
    acquireOwnedCopyLocked_turn (override.getD ob.cfg.defaultScope) h he
  refine ⟨bearer, ob', e', ?_, hturn⟩
  unfold acquire
  rw [if_pos hon, Prog.bind_of_ok hrun]
  cases bearer with
  | none => rfl
  | some token => rfl

theorem attachBearer_turn (h : 0 < ob.cfg.maxAttempts) (hon : ob.cfg.enabled = true)
    (override : Option String) (headers : List String) (he : e.AllocOk) :
    ∃ bearer ob' e', attachBearer ob override headers e =
        .ok ((attached headers bearer, ob'), e') ∧
      Turn ob (override.getD ob.cfg.defaultScope) e bearer ob' e' := by
  obtain ⟨bearer, ob', e₁, hrun, he₁, hturn⟩ :=
    acquireOwnedCopyLocked_turn (override.getD ob.cfg.defaultScope) h he
  cases bearer with
  | none =>
    refine ⟨none, ob', e₁, ?_, hturn⟩
    unfold attachBearer
    rw [if_pos hon, Prog.bind_of_ok hrun]
    rfl
  | some token =>
    refine ⟨some token, ob', e₁.popAlloc.popAlloc, ?_, hturn.of_calm ⟨rfl, rfl⟩⟩
    have hline := alloc_apply e₁
    have hnode := alloc_apply e₁.popAlloc
    rw [he₁.head] at hline
    rw [he₁.popAlloc.head] at hnode
    unfold attachBearer
    rw [if_pos hon, Prog.bind_of_ok hrun]
    dsimp only
    rw [Prog.bind_of_ok hline, if_pos rfl, Prog.bind_of_ok hnode]
    rfl

/-- With any answers of the allocator: within the budget, and the cache stays what it was
unless it holds a token that an answer grants. -/
structure Bounded (ob : Outbound) (e : Env) (ob' : Outbound) (e' : Env) : Prop where
  budget : posts e'.effects ≤ posts e.effects + ob.cfg.maxAttempts
  fresh : cachedTokenFresh ob e.time.head = true → ob' = ob ∧ e'.effects = e.effects
  cache : (ob'.cachedToken = ob.cachedToken ∧ ob'.cachedExpiry = ob.cachedExpiry) ∨
    ∃ k body token, e.token.get k = ⟨0, 200, some body⟩ ∧
      jsonString? body "access_token" = some token ∧ ob'.cachedToken = some token
  cfg : ob'.cfg = ob.cfg

theorem ensureFresh_bounded {scope : String} {got : Bool} {ob' : Outbound} {e' : Env}
    (h : ensureFresh ob scope e = .ok ((got, ob'), e')) : Bounded ob e ob' e' := by
  rw [ensureFresh_eq] at h
  split_ifs at h with hfresh
  · cases h
    exact ⟨Nat.le_add_right _ _, fun _ => ⟨rfl, rfl⟩, Or.inl ⟨rfl, rfl⟩, rfl⟩
  · obtain ⟨hcfg, hbudget, hkept, hgot⟩ := acquireLoop_settled h
    refine ⟨hbudget, fun hyes => absurd hyes hfresh, ?_, hcfg⟩
    cases got with
    | false => exact Or.inl (hkept rfl)
    | true =>
      obtain ⟨k, body, token, -, hrest⟩ := hgot rfl
      exact Or.inr ⟨k, body, token, hrest⟩

theorem Bounded.of_effects {ob' : Outbound} {e₁ e₂ : Env} (h : Bounded ob e ob' e₁)
    (heq : e₂.effects = e₁.effects) : Bounded ob e ob' e₂ where
  budget := heq ▸ h.budget
  fresh := fun hf => ⟨(h.fresh hf).1, heq.trans (h.fresh hf).2⟩
  cache := h.cache
  cfg := h.cfg

theorem acquireOwnedCopyLocked_bounded {scope : String} {bearer : Option String}
    {ob' : Outbound} {e' : Env}
    (h : acquireOwnedCopyLocked ob scope e = .ok ((bearer, ob'), e')) :
    Bounded ob e ob' e' ∧ ∀ token, bearer = some token → ob'.cachedToken = some token := by
  unfold acquireOwnedCopyLocked at h
  obtain ⟨⟨got, ob₁⟩, e₁, hensure, h⟩ := Prog.bind_eq_ok.1 h
  have hbounded := ensureFresh_bounded hensure
  cases got with
  | false =>
    cases h
    exact ⟨hbounded, by simp⟩
  | true =>
    cases htoken : ob₁.cachedToken with
    | none =>
      simp only [htoken] at h
      cases h
      exact ⟨hbounded, by simp⟩
    | some token =>
      simp only [htoken] at h
      obtain ⟨copy, e₂, hcopy, h⟩ := Prog.bind_eq_ok.1 h
      obtain ⟨hread, hd⟩ := (gives_allocated (F := fun _ => True) token).of_ok hcopy
      cases h
      refine ⟨hbounded.of_effects hd.effects_eq, ?_⟩
      rintro t rfl
      rw [htoken, hread.resolve_left (by simp)]

theorem acquire_bounded {override : Option String} {st : Attach} {bearer : Option String}
    {ob' : Outbound} {e' : Env} (h : acquire ob override e = .ok ((st, bearer, ob'), e')) :
    Bounded ob e ob' e' ∧ (st ≠ .ok [] → bearer = none) := by
  unfold acquire at h
  split_ifs at h with hon
  · obtain ⟨⟨owned, ob₁⟩, e₁, hown, h⟩ := Prog.bind_eq_ok.1 h
    obtain ⟨hbounded, -⟩ := acquireOwnedCopyLocked_bounded hown
    cases owned with
    | none =>
      cases h
      exact ⟨hbounded, fun _ => rfl⟩
    | some token =>
      cases h
      exact ⟨hbounded, fun hne => absurd rfl hne⟩
  · cases h
    refine ⟨⟨Nat.le_add_right _ _, fun _ => ⟨rfl, rfl⟩, Or.inl ⟨rfl, rfl⟩, rfl⟩, fun _ => rfl⟩

theorem attachBearer_bounded {override : Option String} {headers : List String} {st : Attach}
    {ob' : Outbound} {e' : Env} (h : attachBearer ob override headers e = .ok ((st, ob'), e')) :
    Bounded ob e ob' e' ∧ ∀ headers', st = .ok headers' →
      ∃ token, ob'.cachedToken = some token ∧ headers' = headers ++ [bearerLine token] := by
  unfold attachBearer at h
  split_ifs at h with hon
  · obtain ⟨⟨owned, ob₁⟩, e₁, hown, h⟩ := Prog.bind_eq_ok.1 h
    obtain ⟨hbounded, htoken⟩ := acquireOwnedCopyLocked_bounded hown
    cases owned with
    | none =>
      cases h
      exact ⟨hbounded, by simp⟩
    | some token =>
      obtain ⟨line, e₂, hline, h⟩ := Prog.bind_eq_ok.1 h
      cases hline
      cases hhead : e₁.alloc.head with
      | false =>
        rw [hhead] at h
        cases h
        exact ⟨hbounded.of_effects rfl, by simp⟩
      | true =>
        rw [hhead] at h
        obtain ⟨node, e₃, hnode, h⟩ := Prog.bind_eq_ok.1 h
        cases hnode
        cases hhead₂ : e₁.popAlloc.alloc.head with
        | false =>
          rw [hhead₂] at h
          cases h
          exact ⟨hbounded.of_effects rfl, by simp⟩
        | true =>
          rw [hhead₂] at h
          cases h
          refine ⟨hbounded.of_effects rfl, ?_⟩
          rintro headers' ⟨⟩
          exact ⟨token, htoken token rfl, rfl⟩
  · cases h
    exact ⟨⟨Nat.le_add_right _ _, fun _ => ⟨rfl, rfl⟩, Or.inl ⟨rfl, rfl⟩, rfl⟩, by simp⟩

/-- A disabled handle does nothing. An enabled one goes through its machine when memory does
not run out, and stays within its bounds when it does. -/
theorem acquire_machine (hcfg : Accepted ob.cfg) (override : Option String)
    (headers : List String) (e : Env) :
    (ob.cfg.enabled = false →
      acquire ob override e = .ok ((.noAttach, none, ob), e) ∧
      attachBearer ob override headers e = .ok ((.noAttach, ob), e)) ∧
    (ob.cfg.enabled = true → e.AllocOk →
      (∃ bearer ob' e', acquire ob override e =
          .ok ((if bearer.isSome then .ok [] else .abort, bearer, ob'), e') ∧
        Turn ob (override.getD ob.cfg.defaultScope) e bearer ob' e') ∧
      ∃ bearer ob' e', attachBearer ob override headers e =
          .ok ((attached headers bearer, ob'), e') ∧
        (bearer = none → (attached headers bearer).list headers = headers) ∧
        Turn ob (override.getD ob.cfg.defaultScope) e bearer ob' e') ∧
    (∀ st bearer ob' e', acquire ob override e = .ok ((st, bearer, ob'), e') →
      Bounded ob e ob' e' ∧ (st ≠ .ok [] → bearer = none)) ∧
    ∀ st ob' e', attachBearer ob override headers e = .ok ((st, ob'), e') →
      Bounded ob e ob' e' ∧ ((∀ headers', st ≠ .ok headers') → st.list headers = headers) := by
  refine ⟨fun hoff => ?_, fun hon he => ⟨?_, ?_⟩, ?_, ?_⟩
  · have hno : ¬ob.cfg.enabled = true := by simp [hoff]
    unfold acquire attachBearer
    rw [if_neg hno, if_neg hno]
    exact ⟨rfl, rfl⟩
  · exact acquire_turn hcfg.maxAttempts_pos hon override he
  · obtain ⟨bearer, ob', e', hrun, hturn⟩ :=
      attachBearer_turn hcfg.maxAttempts_pos hon override headers he
    refine ⟨bearer, ob', e', hrun, ?_, hturn⟩
    rintro rfl
    rfl
  · intro st bearer ob' e' h
    exact acquire_bounded h
  · intro st ob' e' h
    refine ⟨(attachBearer_bounded h).1, fun hno => ?_⟩
    cases st with
    | ok headers' => exact absurd rfl (hno headers')
    | noAttach => rfl
    | abort => rfl

end calls

section sample

def sampleConfig (enabled : Bool) : OutboundConfig where
  enabled := enabled
  tokenUrl := some "https://nrf/oauth2/token"
  nfInstanceId := some "nssf-1"
  authMethod := .mtls
  secretRef := none
  allowSecretAuthInProduction := false
  clientCertPath := some "/etc/nssf/client.crt"
  clientKeyPath := some "/etc/nssf/client.key"
  defaultScope := none
  refreshBufferSeconds := 0
  maxTtlSeconds := 0
  maxAttempts := 0
  backoffBaseMs := 0
  backoffMaxMs := 0
  redirect := ⟨false, 0, false, []⟩

/-- The handle that the constructor makes of it. -/
def sampleOutbound (enabled : Bool) : Outbound where
  cfg :=
    { enabled := enabled
      tokenUrl := "https://nrf/oauth2/token"
      nfInstanceId := "nssf-1"
      authMethod := .mtls
      secretRef := none
      defaultScope := "nnrf-disc nnrf-nfm"
      refreshBufferSeconds := 60
      maxTtlSeconds := 3600
      maxAttempts := 3
      backoffBaseMs := 200
      backoffMaxMs := 2000 }
  cachedToken := none
  cachedExpiry := 0
  deadLetterCb := false
  deadLetterCount := 0
  retryCount := 0

theorem create_sample (enabled : Bool) :
    ∃ e', outboundCreate (sampleConfig enabled) .quiet =
      .ok (some (sampleOutbound enabled), e') := by
  have hrun : Prog.result? (outboundCreate (sampleConfig enabled)) .quiet =
      some (some (sampleOutbound enabled)) := by
    cases enabled <;> decide
  exact Prog.exists_of_result? hrun

theorem accepted_sample (enabled : Bool) : Accepted (sampleOutbound enabled).cfg := by
  obtain ⟨e', he'⟩ := create_sample enabled
  exact ⟨sampleConfig enabled, false, .quiet, sampleOutbound enabled, e', he', rfl⟩

theorem acquire_machine_unanswered :
    ∃ bearer ob' e', acquire (sampleOutbound true) none .quiet =
        .ok ((if bearer.isSome then .ok [] else .abort, bearer, ob'), e') ∧
      Turn (sampleOutbound true) "nnrf-disc nnrf-nfm" .quiet bearer ob' e' :=
  ((acquire_machine (accepted_sample true) none [] .quiet).2.1 rfl Env.allocOk_quiet).1

/-- An environment that grants no memory. -/
def starved : Env := { Env.quiet with alloc := Stream'.const false }

/-- Without a fresh token there need not be a request: a disabled handle makes none, and
neither does one that cannot build a form. -/
theorem stale_acquire_asks_nothing :
    cachedTokenFresh (sampleOutbound false) 0 = false ∧
      (∃ e₀, outboundCreate (sampleConfig false) .quiet = .ok (some (sampleOutbound false), e₀)) ∧
      (∃ e', acquire (sampleOutbound false) none .quiet =
        .ok ((.noAttach, none, sampleOutbound false), e') ∧ posts e'.effects = 0) ∧
      (∃ e₀, outboundCreate (sampleConfig true) .quiet = .ok (some (sampleOutbound true), e₀)) ∧
      ∃ ob' e', acquire (sampleOutbound true) none starved = .ok ((.abort, none, ob'), e') ∧
        posts e'.effects = 0 := by
  refine ⟨rfl, create_sample false, ⟨.quiet, rfl, rfl⟩, create_sample true, ?_⟩
  have hrun : Prog.seen? (fun r e => (r.1, r.2.1, posts e.effects))
      (acquire (sampleOutbound true) none) starved = some (.abort, none, 0) := by
    decide
  obtain ⟨⟨st, bearer, ob'⟩, e', h, hseen⟩ := Prog.exists_of_seen? hrun
  simp only [Prod.mk.injEq] at hseen
  obtain ⟨rfl, rfl, hposts⟩ := hseen
  exact ⟨ob', e', h, hposts⟩

end sample

end Nssf.OAuth
