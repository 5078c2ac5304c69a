import Nssf.Base.Transition
import Nssf.Dispatcher.UrlGate

/-! The inbound key cache. Its key set is fetched from the issuer, is good for `ttl` seconds,
and every bearer is verified with the key of that set which the token's `kid` names. Parsing,
the lookup by `kid` and the signature check belong to the JWT library and are parameters. -/

namespace Nssf.Jwks

open Base

structure JwksCache (S : Type) where
  jwksUrl : Option String
  ttlSeconds : UInt32
  jwkSet : Option S
  lastRefresh : ℤ
  refreshEnabled : Bool
  deriving DecidableEq, Repr

/-- The two members of a token that the callback reads, absent where they are no strings. -/
structure Jwt where
  kid : Option String
  scope : Option String
  deriving DecidableEq, Repr

/-- What is used of the JWT library. -/
structure Libjwt (S K A : Type) where
  create : String → Option S
  decode : String → Option Jwt
  findByKid : S → String → Option K
  kid : K → Option String
  alg : K → A
  algNone : A
  algInval : A
  verifies : String → K → A → Bool
  errorMsg : String → Option String

/-- The lookup returns only a key that carries the name it was asked for. -/
def Libjwt.FindsByKid {S K A : Type} (lib : Libjwt S K A) : Prop :=
  ∀ set kid key, lib.findByKid set kid = some key → lib.kid key = some kid

/-- What surrounds one call: the clock when it begins and after its fetch, what the fetch
returns, and which of its allocating calls succeed. -/
structure Turn (S : Type) where
  now : ℤ
  fetched : Option S
  done : ℤ
  checkerNew : Bool
  setcb : Bool
  strdup : Bool
  deriving DecidableEq, Repr

inductive Fetch (S : Type) where
  | notMade
  | failed
  | got (set : S)
  deriving DecidableEq, Repr

/-- What a call left behind. The clock is its last reading in the call. -/
structure After (S : Type) where
  cache : JwksCache S
  fetch : Fetch S
  clock : ℤ
  deriving DecidableEq, Repr

section embedding

variable {S K A : Type}

def effectiveTtl (ttlSeconds : UInt32) : UInt32 := if ttlSeconds ≠ 0 then ttlSeconds else 3600

def cacheAlloc (calloc mutexInit : Bool) (ttlSeconds : UInt32) : Option (JwksCache S) :=
  if calloc && mutexInit then
    some
      { jwksUrl := none
        ttlSeconds := effectiveTtl ttlSeconds
        jwkSet := none
        lastRefresh := 0
        refreshEnabled := false }
  else none

def schemeAllowed (url : String) (allowInsecureLoopback : Bool) : Bool :=
  if allowInsecureLoopback then hostIsLoopback url.toList
  else hasPrefixCi url.toList "https://".toList

def createWithSchemePolicy (jwksUrl : Option String) (ttlSeconds : UInt32)
    (allowInsecureLoopback calloc mutexInit strdup : Bool) : Option (JwksCache S) :=
  match jwksUrl with
  | none => none
  | some url =>
    if url != "" && schemeAllowed url allowInsecureLoopback then
      match cacheAlloc calloc mutexInit ttlSeconds with
      | none => none
      | some cache =>
        if strdup then some { cache with jwksUrl := some url, refreshEnabled := true } else none
    else none

/-- A seeded cache has no endpoint to refresh from. -/
def jwksCacheCreateFromJson (lib : Libjwt S K A) (jwksJson : Option String)
    (ttlSeconds : UInt32) (calloc mutexInit : Bool) (now : ℤ) : Option (JwksCache S) :=
  match jwksJson.bind lib.create with
  | none => none
  | some set =>
    match (cacheAlloc calloc mutexInit ttlSeconds : Option (JwksCache S)) with
    | none => none
    | some cache =>
      some { cache with jwkSet := some set, lastRefresh := now, refreshEnabled := false }

/-- The key set is replaced by a clean fetch only. -/
def refreshLocked (cache : JwksCache S) (w : Turn S) : Bool × After S :=
  if !cache.refreshEnabled || cache.jwksUrl.isNone then
    (cache.jwkSet.isSome, ⟨cache, .notMade, w.now⟩)
  else
    match w.fetched with
    | none => (false, ⟨cache, .failed, w.now⟩)
    | some fresh =>
      (true, ⟨{ cache with jwkSet := some fresh, lastRefresh := w.done }, .got fresh, w.done⟩)

def ensureFreshLocked (cache : JwksCache S) (w : Turn S) : Bool × After S :=
  if cache.jwkSet.isNone then refreshLocked cache w
  else if !cache.refreshEnabled then (true, ⟨cache, .notMade, w.now⟩)
  else if (cache.ttlSeconds.toNat : ℤ) ≤ w.now - cache.lastRefresh then refreshLocked cache w
  else (true, ⟨cache, .notMade, w.now⟩)

variable [DecidableEq A]

/-- The key that the token names, bound to its own algorithm. -/
def verifyCb (lib : Libjwt S K A) (set : S) (jwt : Jwt) : Option (K × A) :=
  match jwt.kid with
  | none => none
  | some kid =>
    match lib.findByKid set kid with
    | none => none
    | some key =>
      if lib.alg key = lib.algNone ∨ lib.alg key = lib.algInval then none
      else some (key, lib.alg key)

/-- The check of the library with this callback. It returns the scope that was captured. -/
def jwtCheckerVerify (lib : Libjwt S K A) (set : S) (token : String) (strdup : Bool) :
    Option (Option String) :=
  match lib.decode token with
  | none => none
  | some jwt =>
    match verifyCb lib set jwt with
    | none => none
    | some (key, alg) =>
      if lib.verifies token key alg then some (if strdup then jwt.scope else none) else none

/-- The scope of an accepted bearer, or the text of the refusal. -/
abbrev Answer := Except String (Option String)

/-- The part of a validation that runs on the key set. -/
def checkBearer (lib : Libjwt S K A) (set : S) (token : String) (w : Turn S) : Answer :=
  if !w.checkerNew then .error "checker alloc failed"
  else if !w.setcb then .error "checker setcb failed"
  else
    match jwtCheckerVerify lib set token w.strdup with
    | none => .error ("token verification failed: " ++ (lib.errorMsg token).getD "unknown")
    | some scope => .ok scope

def oauth2ValidateBearer (lib : Libjwt S K A) (cache : JwksCache S) (bearerToken : Option String)
    (w : Turn S) : Answer × After S :=
  match bearerToken with
  | none => (.error "invalid arguments", ⟨cache, .notMade, w.now⟩)
  | some token =>
    if token = "" then (.error "invalid arguments", ⟨cache, .notMade, w.now⟩)
    else
      match ensureFreshLocked cache w with
      | (false, after) => (.error "jwks unavailable", after)
      | (true, after) =>
        match after.cache.jwkSet with
        | none => (.error "jwks unavailable", after)
        | some set => (checkBearer lib set token w, after)

inductive Call where
  | validate (bearerToken : Option String)
  | ensureFresh
  | refresh
  deriving DecidableEq, Repr

/-- What a call answers: a verdict on a bearer, or the return code of the other two. -/
inductive Reply where
  | verdict (a : Answer)
  | code (ok : Bool)

def Call.exec (lib : Libjwt S K A) (cache : JwksCache S) (w : Turn S) : Call → Reply × After S
  | .validate token =>
    (.verdict (oauth2ValidateBearer lib cache token w).1,
      (oauth2ValidateBearer lib cache token w).2)
  | .ensureFresh => (.code (ensureFreshLocked cache w).1, (ensureFreshLocked cache w).2)
  | .refresh => (.code (refreshLocked cache w).1, (refreshLocked cache w).2)

end embedding

section calls

variable {S K A : Type} [DecidableEq A]

/-- A cache that its constructors bound to an endpoint. -/
structure Bound (ttl : ℕ) (cache : JwksCache S) : Prop where
  url : cache.jwksUrl.isNone = false
  enabled : cache.refreshEnabled = true
  ttl_eq : cache.ttlSeconds.toNat = ttl
  ttl_pos : 0 < ttl

/-- What a call can do: nothing, ask in vain, or take a new key set over. -/
inductive Effect (cache : JwksCache S) (w : Turn S) : After S → Prop
  | still : Effect cache w ⟨cache, .notMade, w.now⟩
  | failed : Effect cache w ⟨cache, .failed, w.now⟩
  | got (set : S) :
    Effect cache w ⟨{ cache with jwkSet := some set, lastRefresh := w.done }, .got set, w.done⟩

/-- The set is missing or has reached its age at `t`. -/
def Stale (cache : JwksCache S) (t : ℤ) : Prop :=
  cache.jwkSet = none ∨ (cache.ttlSeconds.toNat : ℤ) ≤ t - cache.lastRefresh

/-- The bearer is signed by the key of the set that its `kid` names, under that key's own
algorithm. -/
def Verified (lib : Libjwt S K A) (set : S) (token : String) : Prop :=
  ∃ jwt kid key, lib.decode token = some jwt ∧ jwt.kid = some kid ∧
    lib.findByKid set kid = some key ∧ lib.kid key = some kid ∧
    lib.alg key ≠ lib.algNone ∧ lib.alg key ≠ lib.algInval ∧
    lib.verifies token key (lib.alg key) = true

theorem effectiveTtl_pos (ttl : UInt32) : 0 < (effectiveTtl ttl).toNat := by
  simp only [effectiveTtl]
  split_ifs with h
  · have hne : ttl.toNat ≠ 0 := fun h0 => h (UInt32.toNat_inj.1 h0)
    omega
  · decide

theorem createWithSchemePolicy_bound {url : Option String} {ttl : UInt32}
    {loopback calloc mutexInit strdup : Bool} {cache : JwksCache S}
    (h : createWithSchemePolicy url ttl loopback calloc mutexInit strdup = some cache) :
    Bound (effectiveTtl ttl).toNat cache ∧ cache.jwkSet = none := by
  cases url with
  | none => cases h
  | some url =>
    simp only [createWithSchemePolicy, cacheAlloc] at h
    split_ifs at h
    have hcache := Option.some.inj h
    subst hcache
    exact ⟨⟨rfl, rfl, rfl, effectiveTtl_pos ttl⟩, rfl⟩

theorem refreshLocked_of_bound {ttl : ℕ} {cache : JwksCache S} (hb : Bound ttl cache)
    (w : Turn S) : refreshLocked cache w = match w.fetched with
      | none => (false, ⟨cache, .failed, w.now⟩)
      | some fresh =>
        (true, ⟨{ cache with jwkSet := some fresh, lastRefresh := w.done }, .got fresh, w.done⟩) := by
  simp [refreshLocked, hb.url, hb.enabled]

theorem refreshLocked_effect {ttl : ℕ} {cache : JwksCache S} (hb : Bound ttl cache)
    (w : Turn S) : Effect cache w (refreshLocked cache w).2 := by
  rw [refreshLocked_of_bound hb]
  cases w.fetched with
  | none => exact .failed
  | some set => exact .got set

theorem ensureFreshLocked_of_stale {ttl : ℕ} {cache : JwksCache S} (hb : Bound ttl cache)
    {w : Turn S} (h : Stale cache w.now) : ensureFreshLocked cache w = refreshLocked cache w := by
  rcases h with hnone | hold
  · simp [ensureFreshLocked, hnone]
  · simp [ensureFreshLocked, hb.enabled, hold]

theorem ensureFreshLocked_of_fresh {ttl : ℕ} {cache : JwksCache S} (hb : Bound ttl cache)
    {w : Turn S} (h : ¬ Stale cache w.now) :
    ensureFreshLocked cache w = (true, ⟨cache, .notMade, w.now⟩) := by
  simp only [Stale, not_or] at h
  have hsome : cache.jwkSet.isNone = false := by
    simpa using Option.ne_none_iff_isSome.1 h.1
  simp [ensureFreshLocked, hb.enabled, hsome, h.2]

/-- A seeded key set stays in use whatever its age. -/
theorem ensureFreshLocked_seeded {lib : Libjwt S K A} {json : Option String} {ttl : UInt32}
    {calloc mutexInit : Bool} {t : ℤ} {cache : JwksCache S}
    (h : jwksCacheCreateFromJson lib json ttl calloc mutexInit t = some cache) (w : Turn S) :
    ensureFreshLocked cache w = (true, ⟨cache, .notMade, w.now⟩) := by
  simp only [jwksCacheCreateFromJson] at h
  cases hset : json.bind lib.create with
  | none => simp [hset] at h
  | some set =>
    simp only [hset, cacheAlloc] at h
    split_ifs at h
    have hcache := Option.some.inj h
    rw [← hcache]
    rfl

theorem ensureFreshLocked_effect {ttl : ℕ} {cache : JwksCache S} (hb : Bound ttl cache)
    (w : Turn S) : Effect cache w (ensureFreshLocked cache w).2 := by
  by_cases h : Stale cache w.now
  · rw [ensureFreshLocked_of_stale hb h]
    exact refreshLocked_effect hb w
  · rw [ensureFreshLocked_of_fresh hb h]
    exact .still

/-- A set that passed the freshness test is younger than its age limit at the last reading of
the clock. -/
theorem ensureFreshLocked_young {ttl : ℕ} {cache : JwksCache S} (hb : Bound ttl cache)
    {w : Turn S} (h : (ensureFreshLocked cache w).1 = true) :
    (ensureFreshLocked cache w).2.clock - ttl <
      (ensureFreshLocked cache w).2.cache.lastRefresh := by
  have hpos := hb.ttl_pos
  by_cases hs : Stale cache w.now
  · rw [ensureFreshLocked_of_stale hb hs, refreshLocked_of_bound hb] at h ⊢
    cases hw : w.fetched with
    | none => simp [hw] at h
    | some set =>
      simp only
      omega
  · rw [ensureFreshLocked_of_fresh hb hs]
    have hage := not_or.1 hs
    have httl := hb.ttl_eq
    simp only
    omega

theorem jwtCheckerVerify_some {lib : Libjwt S K A} (hlib : lib.FindsByKid) {set : S}
    {token : String} {strdup : Bool} {scope : Option String}
    (h : jwtCheckerVerify lib set token strdup = some scope) : Verified lib set token := by
  simp only [jwtCheckerVerify, verifyCb] at h
  cases hjwt : lib.decode token with
  | none => simp [hjwt] at h
  | some jwt =>
    cases hkid : jwt.kid with
    | none => simp [hjwt, hkid] at h
    | some kid =>
      cases hkey : lib.findByKid set kid with
      | none => simp [hjwt, hkid, hkey] at h
      | some key =>
        by_cases halg : lib.alg key = lib.algNone ∨ lib.alg key = lib.algInval
        · simp [hjwt, hkid, hkey, halg] at h
        · have hverifies : lib.verifies token key (lib.alg key) = true := by
            by_contra hv
            simp [hjwt, hkid, hkey, halg, hv] at h
          have hnot := not_or.1 halg
          exact ⟨jwt, kid, key, hjwt, hkid, hkey, hlib set kid key hkey, hnot.1, hnot.2,
            hverifies⟩

theorem checkBearer_ok {lib : Libjwt S K A} (hlib : lib.FindsByKid) {set : S} {token : String}
    {w : Turn S} {scope : Option String} (h : checkBearer lib set token w = .ok scope) :
    Verified lib set token := by
  simp only [checkBearer] at h
  cases hverify : jwtCheckerVerify lib set token w.strdup with
  | none =>
    rw [hverify] at h
    split_ifs at h
  | some captured => exact jwtCheckerVerify_some hlib hverify

/-- An accepted bearer had passed the freshness test, and was checked with the set that the
test left. -/
theorem oauth2ValidateBearer_ok {lib : Libjwt S K A} {cache : JwksCache S}
    {bearerToken : Option String} {w : Turn S} {scope : Option String} {after : After S}
    (h : oauth2ValidateBearer lib cache bearerToken w = (.ok scope, after)) :
    ensureFreshLocked cache w = (true, after) ∧ ∃ token set, bearerToken = some token ∧
      after.cache.jwkSet = some set ∧ checkBearer lib set token w = .ok scope := by
  cases bearerToken with
  | none => simp [oauth2ValidateBearer] at h
  | some token =>
    have hempty : token ≠ "" := fun h0 => by simp [oauth2ValidateBearer, h0] at h
    simp only [oauth2ValidateBearer, if_neg hempty] at h
    generalize hfresh : ensureFreshLocked cache w = r at h
    obtain ⟨ok, a⟩ := r
    cases ok with
    | false => simp at h
    | true =>
      cases hset : a.cache.jwkSet with
      | none => simp [hset] at h
      | some set =>
        simp only [hset, Prod.mk.injEq] at h
        rw [← h.2]
        exact ⟨rfl, token, set, rfl, hset, h.1⟩

theorem oauth2ValidateBearer_effect (lib : Libjwt S K A) {ttl : ℕ} {cache : JwksCache S}
    (hb : Bound ttl cache) (token : Option String) (w : Turn S) :
    Effect cache w (oauth2ValidateBearer lib cache token w).2 := by
  cases token with
  | none => exact .still
  | some token =>
    have he := ensureFreshLocked_effect hb w
    by_cases hempty : token = ""
    · simp only [oauth2ValidateBearer, if_pos hempty]
      exact .still
    · simp only [oauth2ValidateBearer, if_neg hempty]
      generalize ensureFreshLocked cache w = r at he
      obtain ⟨ok, a⟩ := r
      cases ok with
      | false => exact he
      | true =>
        cases hset : a.cache.jwkSet with
        | none => simpa only [hset] using he
        | some set => simpa only [hset] using he

theorem exec_effect (lib : Libjwt S K A) {ttl : ℕ} {cache : JwksCache S} (hb : Bound ttl cache)
    (w : Turn S) (c : Call) : Effect cache w (c.exec lib cache w).2 := by
  cases c with
  | validate token => exact oauth2ValidateBearer_effect lib hb token w
  | ensureFresh => exact ensureFreshLocked_effect hb w
  | refresh => exact refreshLocked_effect hb w

end calls

section runs

variable {S K A : Type} [DecidableEq A]

/-- The cache, the last reading of the clock, and the fetches that succeeded with the times at
which they were completed. -/
structure State (S : Type) where
  cache : JwksCache S
  clock : ℤ
  fetches : List (ℤ × S)

structure Event (S : Type) where
  call : Call
  turn : Turn S
  reply : Reply
  fetch : Fetch S

def Fetch.completed (t : ℤ) : Fetch S → List (ℤ × S)
  | .got set => [(t, set)]
  | _ => []

def Fetch.isGot : Fetch S → Bool
  | .got _ => true
  | _ => false

/-- One call, on a clock that does not run backwards. -/
structure Moves (lib : Libjwt S K A) (s : State S) (e : Event S) (s' : State S) : Prop where
  begins : s.clock ≤ e.turn.now
  ends : e.turn.now ≤ e.turn.done
  runs : e.call.exec lib s.cache e.turn = (e.reply, ⟨s'.cache, e.fetch, s'.clock⟩)
  recorded : s'.fetches = s.fetches ++ e.fetch.completed s'.clock

/-- A new cache at `t`, from which nothing was fetched so far. -/
def State.start (cache : JwksCache S) (t : ℤ) : State S := ⟨cache, t, []⟩

/-- The key set in use is one that a fetch brought at the time of the last refresh. -/
structure Held (ttl : ℕ) (s : State S) : Prop where
  bound : Bound ttl s.cache
  fetched : ∀ set, s.cache.jwkSet = some set → (s.cache.lastRefresh, set) ∈ s.fetches
  past : ∀ p ∈ s.fetches, p.1 ≤ s.clock

theorem Moves.effect {lib : Libjwt S K A} {ttl : ℕ} {s s' : State S} {e : Event S}
    (h : Moves lib s e s') (hb : Bound ttl s.cache) :
    Effect s.cache e.turn ⟨s'.cache, e.fetch, s'.clock⟩ := by
  have he := exec_effect lib hb e.turn e.call
  rw [h.runs] at he
  exact he

theorem Moves.clock_le {lib : Libjwt S K A} {ttl : ℕ} {s s' : State S} {e : Event S}
    (h : Moves lib s e s') (hb : Bound ttl s.cache) : e.turn.now ≤ s'.clock := by
  have hends := h.ends
  have he := h.effect hb
  generalize hafter : (⟨s'.cache, e.fetch, s'.clock⟩ : After S) = after at he
  cases he with
  | still => exact (congrArg After.clock hafter).ge
  | failed => exact (congrArg After.clock hafter).ge
  | got set =>
    have hclock : s'.clock = e.turn.done := congrArg After.clock hafter
    omega

/-- Only a fetch that succeeds changes the cache. -/
theorem Moves.cache_eq {lib : Libjwt S K A} {ttl : ℕ} {s s' : State S} {e : Event S}
    (h : Moves lib s e s') (hb : Bound ttl s.cache) (hg : e.fetch.isGot = false) :
    s'.cache = s.cache := by
  have he := h.effect hb
  generalize hafter : (⟨s'.cache, e.fetch, s'.clock⟩ : After S) = after at he
  cases he with
  | still => exact congrArg After.cache hafter
  | failed => exact congrArg After.cache hafter
  | got set =>
    have hfetch : e.fetch = .got set := congrArg After.fetch hafter
    rw [hfetch] at hg
    cases hg

theorem Held.start {ttl : ℕ} {cache : JwksCache S} (hb : Bound ttl cache)
    (hnone : cache.jwkSet = none) (t : ℤ) : Held ttl (State.start cache t) where
  bound := hb
  fetched := fun set hset => by
    rw [show (State.start cache t).cache.jwkSet = none from hnone] at hset
    cases hset
  past := fun p hp => by cases hp

theorem Held.step {lib : Libjwt S K A} {ttl : ℕ} {s s' : State S} {e : Event S}
    (h : Held ttl s) (hm : Moves lib s e s') : Held ttl s' := by
  have hbegins := hm.begins
  have hclock := hm.clock_le h.bound
  have hpast : ∀ p ∈ s.fetches, p.1 ≤ s'.clock := fun p hp => by
    have hp' := h.past p hp
    omega
  cases hg : e.fetch with
  | got set =>
    have he := hm.effect h.bound
    rw [hg] at he
    have hrec := hm.recorded
    rw [hg] at hrec
    generalize hafter : (⟨s'.cache, .got set, s'.clock⟩ : After S) = after at he
    cases he with
    | still => simp at hafter
    | failed => simp at hafter
    | got set' =>
      simp only [After.mk.injEq, Fetch.got.injEq] at hafter
      obtain ⟨hcache, hset, hdone⟩ := hafter
      subst hset
      have hlist : s'.fetches = s.fetches ++ [(s'.clock, set)] := hrec
      refine ⟨?_, fun set' hset' => ?_, fun p hp => ?_⟩
      · rw [hcache]
        exact ⟨h.bound.url, h.bound.enabled, h.bound.ttl_eq, h.bound.ttl_pos⟩
      · rw [hcache] at hset' ⊢
        have heq : set = set' := Option.some.inj hset'
        rw [hlist, ← heq, hdone]
        simp
      · rw [hlist, List.mem_append, List.mem_singleton] at hp
        rcases hp with hp | hp
        · exact hpast p hp
        · rw [hp]
  | notMade =>
    have hcache := hm.cache_eq h.bound (by rw [hg]; rfl)
    have hlist : s'.fetches = s.fetches := by simpa [hg, Fetch.completed] using hm.recorded
    exact ⟨hcache ▸ h.bound, by rw [hcache, hlist]; exact h.fetched, by rw [hlist]; exact hpast⟩
  | failed =>
    have hcache := hm.cache_eq h.bound (by rw [hg]; rfl)
    have hlist : s'.fetches = s.fetches := by simpa [hg, Fetch.completed] using hm.recorded
    exact ⟨hcache ▸ h.bound, by rw [hcache, hlist]; exact h.fetched, by rw [hlist]; exact hpast⟩

theorem Held.trace {lib : Libjwt S K A} {ttl : ℕ} {s s' : State S} {es : List (Event S)}
    (ht : Trace (Moves lib) s es s') (h : Held ttl s) : Held ttl s' := by
  induction ht with
  | nil => exact h
  | snoc _ hm ih => exact ih.step hm

theorem trace_cache_eq {lib : Libjwt S K A} {ttl : ℕ} {s s' : State S} {es : List (Event S)}
    (ht : Trace (Moves lib) s es s') (hb : Bound ttl s.cache)
    (hidle : ∀ e ∈ es, e.fetch.isGot = false) : s'.cache = s.cache := by
  induction ht with
  | nil => rfl
  | snoc _ hm ih =>
    have hcache := ih fun e he => hidle e (List.mem_append_left _ he)
    have hlast := hidle _ (List.mem_append_right _ List.mem_cons_self)
    rw [hm.cache_eq (hcache ▸ hb) hlast, hcache]

/-- What an accepted bearer was checked with. -/
theorem Moves.accepted {lib : Libjwt S K A} (hlib : lib.FindsByKid) {ttl : ℕ} {s s' : State S}
    {e : Event S} (h : Moves lib s e s') (hs : Held ttl s) {bearerToken scope : Option String}
    (hcall : e.call = .validate bearerToken) (hreply : e.reply = .verdict (.ok scope)) :
    ∃ token t set, bearerToken = some token ∧ (t, set) ∈ s'.fetches ∧
      s'.clock - ttl < t ∧ t ≤ s'.clock ∧ Verified lib set token := by
  have hruns := h.runs
  rw [hcall, hreply] at hruns
  simp only [Call.exec, Prod.mk.injEq, Reply.verdict.injEq] at hruns
  have hok := oauth2ValidateBearer_ok (Prod.ext hruns.1 hruns.2)
  obtain ⟨hfresh, token, set, htoken, hset, hcheck⟩ := hok
  have hs' := hs.step h
  have hmem := hs'.fetched set hset
  have hyoung := ensureFreshLocked_young hs.bound (congrArg Prod.fst hfresh)
  rw [hfresh] at hyoung
  exact ⟨token, s'.cache.lastRefresh, set, htoken, hmem, hyoung, hs'.past _ hmem,
    checkBearer_ok hlib hcheck⟩

/-- Without a new key set no bearer passes once the old set is missing or of age. -/
theorem Moves.refused {lib : Libjwt S K A} {ttl : ℕ} {s s' : State S} {e : Event S}
    (h : Moves lib s e s') (hb : Bound ttl s.cache) (hg : e.fetch.isGot = false)
    (hstale : Stale s.cache e.turn.now) {bearerToken : Option String}
    (hcall : e.call = .validate bearerToken) : ∃ msg, e.reply = .verdict (.error msg) := by
  have hruns := h.runs
  rw [hcall] at hruns
  simp only [Call.exec, Prod.mk.injEq] at hruns
  cases hanswer : (oauth2ValidateBearer lib s.cache bearerToken e.turn).1 with
  | error msg => exact ⟨msg, by rw [← hruns.1, hanswer]⟩
  | ok scope =>
    have hfresh := (oauth2ValidateBearer_ok (Prod.ext hanswer hruns.2)).1
    rw [ensureFreshLocked_of_stale hb hstale, refreshLocked_of_bound hb] at hfresh
    cases hw : e.turn.fetched with
    | none => simp [hw] at hfresh
    | some set =>
      simp only [hw, Prod.mk.injEq, After.mk.injEq, true_and] at hfresh
      rw [← hfresh.2.1] at hg
      cases hg

/-- A call whose fetch fails answers an error. -/
theorem Moves.failed {lib : Libjwt S K A} {ttl : ℕ} {s s' : State S} {e : Event S}
    (h : Moves lib s e s') (hb : Bound ttl s.cache) (hf : e.fetch = .failed)
    {bearerToken : Option String} (hcall : e.call = .validate bearerToken) :
    ∃ msg, e.reply = .verdict (.error msg) := by
  have hruns := h.runs
  by_cases hstale : Stale s.cache e.turn.now
  · exact h.refused hb (by rw [hf]; rfl) hstale hcall
  · rw [hcall] at hruns
    simp only [Call.exec, Prod.mk.injEq] at hruns
    cases hanswer : (oauth2ValidateBearer lib s.cache bearerToken e.turn).1 with
    | error msg => exact ⟨msg, by rw [← hruns.1, hanswer]⟩
    | ok scope =>
      have hfresh := (oauth2ValidateBearer_ok (Prod.ext hanswer hruns.2)).1
      rw [ensureFreshLocked_of_fresh hb hstale, hf] at hfresh
      simp at hfresh

/-- In every run of a cache that a constructor bound to its endpoint: an accepted bearer was
verified with a set that a fetch brought less than `ttl` before, by the key it names; and after
a fetch that failed the set stays as it was, and once it is missing or of age no bearer passes
until a fetch succeeds. -/
theorem bearer_keys_fresh {lib : Libjwt S K A} (hlib : lib.FindsByKid) {url : Option String}
    {ttl : UInt32} {loopback calloc mutexInit strdup : Bool} {cache : JwksCache S}
    (hcreate : createWithSchemePolicy url ttl loopback calloc mutexInit strdup = some cache)
    {t₀ : ℤ} {es : List (Event S)} {s s' : State S} {e : Event S}
    (hrun : Trace (Moves lib) (State.start cache t₀) es s) (hmove : Moves lib s e s') :
    (∀ bearerToken scope, e.call = .validate bearerToken → e.reply = .verdict (.ok scope) →
      ∃ token t set, bearerToken = some token ∧ (t, set) ∈ s'.fetches ∧
        s'.clock - (effectiveTtl ttl).toNat < t ∧ t ≤ s'.clock ∧ Verified lib set token) ∧
    (e.fetch = .failed → s'.cache = s.cache ∧
      (∀ bearerToken, e.call = .validate bearerToken → ∃ msg, e.reply = .verdict (.error msg)) ∧
      ∀ later s₁ e₁ s₂ bearerToken, Trace (Moves lib) s' later s₁ → Moves lib s₁ e₁ s₂ →
        (∀ x ∈ later ++ [e₁], x.fetch.isGot = false) → Stale s.cache e₁.turn.now →
        e₁.call = .validate bearerToken → ∃ msg, e₁.reply = .verdict (.error msg)) := by
  have hnew := createWithSchemePolicy_bound hcreate
  have hs := (Held.start hnew.1 hnew.2 t₀).trace hrun
  refine ⟨fun bearerToken scope hcall hreply => hmove.accepted hlib hs hcall hreply,
    fun hfailed => ?_⟩
  have hcache := hmove.cache_eq hs.bound (by rw [hfailed]; rfl)
  refine ⟨hcache, fun bearerToken hcall => hmove.failed hs.bound hfailed hcall, ?_⟩
  intro later s₁ e₁ s₂ bearerToken htrace hnext hidle hstale hcall
  have hkept := trace_cache_eq htrace (hcache ▸ hs.bound) fun x hx =>
    hidle x (List.mem_append_left _ hx)
  rw [hcache] at hkept
  exact hnext.refused (hkept ▸ hs.bound) (hidle e₁ (List.mem_append_right _ List.mem_cons_self))
    (hkept ▸ hstale) hcall

end runs

section sample

/-- A library whose key sets are lists of names, each key signing the token that names it. -/
def namedKeys : Libjwt (List String) String ℕ where
  create := fun json => some [json]
  decode := fun token => some ⟨some token, some "nnssf-nsselection"⟩
  findByKid := fun set kid => set.find? (· == kid)
  kid := some
  alg := fun _ => 1
  algNone := 0
  algInval := 15
  verifies := fun token key _ => token == key
  errorMsg := fun _ => none

theorem namedKeys_findsByKid : namedKeys.FindsByKid := by
  intro set kid key h
  have hkey := List.find?_some h
  exact congrArg some (beq_iff_eq.1 hkey)

def sampleCache : JwksCache (List String) where
  jwksUrl := some "https://nrf/jwks"
  ttlSeconds := 3600
  jwkSet := none
  lastRefresh := 0
  refreshEnabled := true

theorem sampleCache_created :
    createWithSchemePolicy (some "https://nrf/jwks") 0 false true true true = some sampleCache := by
  decide

/-- A refresh at 0 that brings one key. -/
def firstRefresh : Event (List String) where
  call := .refresh
  turn := ⟨0, some ["k1"], 0, true, true, true⟩
  reply := .code true
  fetch := .got ["k1"]

/-- A refresh at 10 that fails. -/
def failedRefresh : Event (List String) where
  call := .refresh
  turn := ⟨10, none, 10, true, true, true⟩
  reply := .code false
  fetch := .failed

/-- A bearer at 20 that is signed by the key. -/
def lateBearer : Event (List String) where
  call := .validate (some "k1")
  turn := ⟨20, none, 20, true, true, true⟩
  reply := .verdict (.ok (some "nnssf-nsselection"))
  fetch := .notMade

def refreshed (t : ℤ) : State (List String) where
  cache := { sampleCache with jwkSet := some ["k1"] }
  clock := t
  fetches := [(0, ["k1"])]

theorem firstRefresh_moves :
    Moves namedKeys (State.start sampleCache 0) firstRefresh (refreshed 0) :=
  ⟨le_rfl, le_rfl, rfl, rfl⟩

theorem failedRefresh_moves : Moves namedKeys (refreshed 0) failedRefresh (refreshed 10) :=
  ⟨by decide, by decide, rfl, rfl⟩

theorem lateBearer_moves : Moves namedKeys (refreshed 10) lateBearer (refreshed 20) :=
  ⟨by decide, by decide, rfl, rfl⟩

theorem bearer_keys_fresh_late : ∃ token t set, some "k1" = some token ∧
    (t, set) ∈ (refreshed 20).fetches ∧ (refreshed 20).clock - (effectiveTtl 0).toNat < t ∧
    t ≤ (refreshed 20).clock ∧ Verified namedKeys set token :=
  (bearer_keys_fresh namedKeys_findsByKid sampleCache_created
    (((Trace.nil _).snoc firstRefresh_moves).snoc failedRefresh_moves) lateBearer_moves).1
      (some "k1") _ rfl rfl

/-- A forced refresh that fails does not keep a bearer out while the set is young. -/
theorem failed_refresh_still_accepts : ¬ ∀ es s e s₁ e₁ s₂ bearerToken,
    Trace (Moves namedKeys) (State.start sampleCache 0) es s → Moves namedKeys s e s₁ →
    e.fetch = .failed → Moves namedKeys s₁ e₁ s₂ → e₁.fetch.isGot = false →
    e₁.call = .validate bearerToken → ∃ msg, e₁.reply = .verdict (.error msg) := by
  intro h
  have hrun : Trace (Moves namedKeys) (State.start sampleCache 0) ([] ++ [firstRefresh])
      (refreshed 0) := (Trace.nil _).snoc firstRefresh_moves
  obtain ⟨msg, hmsg⟩ := h _ _ _ _ _ _ _ hrun failedRefresh_moves rfl lateBearer_moves rfl rfl
  cases hmsg

end sample

end Nssf.Jwks
