import Mathlib.Logic.Relation
import Nssf.OAuth.Scopes

/-! How long a cached token lives. The two numbers of a token response are read as values of 64
bits, capped and compared; no step leaves that range, and what comes out bounds every later use
of the token. -/

namespace Nssf.OAuth

open Base Run

section steps

/-- The range of `long long` and of `time_t`. -/
def Fits (v : ℤ) : Prop := -2 ^ 63 ≤ v ∧ v < 2 ^ 63

instance (v : ℤ) : Decidable (Fits v) := inferInstanceAs (Decidable (_ ∧ _))

/-- The result of a signed operation; nothing when it overflows. -/
def checked (v : ℤ) : Option ℤ := if Fits v then some v else none

/-- A clock value with room for the largest lifetime above it and for the leeway below. -/
def Realistic (now : ℤ) : Prop := -2 ^ 63 + clockSkewLeeway ≤ now ∧ now + 2 ^ 32 ≤ 2 ^ 63

def positive (expiresIn : Option ℤ) : Option ℤ := expiresIn.filter fun e => decide (0 < e)

def ttlSteps (maxTtl : ℕ) (expiresIn : Option ℤ) (now : ℤ) : Option (Option ℤ) :=
  match positive expiresIn with
  | none => some none
  | some ttl => (checked (now + if (maxTtl : ℤ) < ttl then (maxTtl : ℤ) else ttl)).map some

/-- The arithmetic of `resolve_expiry` as the code does it: nothing when a step overflows. -/
def expirySteps (maxTtl : ℕ) (expiresIn exp : Option ℤ) (now : ℤ) : Option (Option ℤ) :=
  (ttlSteps maxTtl expiresIn now).bind fun fromTtl =>
    match exp with
    | none => some fromTtl
    | some exp =>
      (checked (now - clockSkewLeeway)).bind fun oldest =>
        if exp ≤ oldest then some none
        else
          (checked exp).bind fun expCapped =>
            (checked (now + maxTtl)).map fun maxFromNow =>
              let expCapped := if maxFromNow < expCapped then maxFromNow else expCapped
              match fromTtl with
              | none => some expCapped
              | some t => some (if expCapped < t then expCapped else t)

/-- `cached_token_fresh_locked` on 64 bits. -/
def freshSteps (refreshBuffer : ℕ) (cachedExpiry t : ℤ) : Option Bool :=
  (checked (t + refreshBuffer)).map fun edge => decide (edge < cachedExpiry)

/-- The lifetimes that are present, from the announced one and from the one in the token. -/
def lifetimes (maxTtl : ℕ) (expiresIn exp : Option ℤ) (now : ℤ) : List ℤ :=
  (positive expiresIn).toList.map (fun e : ℤ => now + min e (maxTtl : ℤ)) ++
    exp.toList.map fun x => min x (now + maxTtl)

/-- What is resolved: nothing for an expired token or when no lifetime is known, and the
earliest of the lifetimes otherwise. -/
structure Resolves (maxTtl : ℕ) (expiresIn exp : Option ℤ) (now : ℤ) (r : Option ℤ) : Prop where
  refused : r = none ↔
    (∃ x, exp = some x ∧ x ≤ now - clockSkewLeeway) ∨ (positive expiresIn = none ∧ exp = none)
  earliest : ∀ t, r = some t → t ∈ lifetimes maxTtl expiresIn exp now ∧
    ∀ c ∈ lifetimes maxTtl expiresIn exp now, t ≤ c
  bounded : ∀ t, r = some t → t ≤ now + maxTtl

variable {maxTtl : ℕ} {expiresIn exp : Option ℤ} {now : ℤ}

/-- The value that the model resolves, without a range. -/
def resolved (maxTtl : ℕ) (expiresIn exp : Option ℤ) (now : ℤ) : Option ℤ :=
  match exp with
  | none => (positive expiresIn).map fun e : ℤ => now + min e (maxTtl : ℤ)
  | some x =>
    if x ≤ now - clockSkewLeeway then none
    else
      match (positive expiresIn).map fun e : ℤ => now + min e (maxTtl : ℤ) with
      | none => some (min x (now + maxTtl))
      | some t => some (min (min x (now + maxTtl)) t)

theorem positive_cases (expiresIn : Option ℤ) :
    positive expiresIn = none ∨ ∃ e, positive expiresIn = some e ∧ 0 < e := by
  cases h : positive expiresIn with
  | none => exact Or.inl rfl
  | some e =>
    refine Or.inr ⟨e, rfl, ?_⟩
    have hfilter := Option.eq_some_of_filter_eq_some h
    simp only [positive, hfilter, Option.filter_some] at h
    by_contra hno
    rw [if_neg (by simpa using hno)] at h
    cases h

theorem checked_of_fits {v : ℤ} (h : Fits v) : checked v = some v := if_pos h

theorem ite_lt_eq_min (a b : ℤ) : (if a < b then a else b) = min b a := by
  by_cases h : a < b
  · rw [if_pos h, min_eq_right h.le]
  · rw [if_neg h, min_eq_left (not_lt.1 h)]

theorem ttlSteps_eq (hnow : Realistic now) (hmax : maxTtl < 2 ^ 32) :
    ttlSteps maxTtl expiresIn now =
      some ((positive expiresIn).map fun e : ℤ => now + min e (maxTtl : ℤ)) := by
  obtain ⟨hlo, hhi⟩ := hnow
  rcases positive_cases expiresIn with h | ⟨e, h, hpos⟩
  · simp only [ttlSteps, h, Option.map_none]
  · have hfits : Fits (now + min e maxTtl) := by
      simp only [Fits, clockSkewLeeway] at *
      omega
    simp only [ttlSteps, h, ite_lt_eq_min, checked_of_fits hfits, Option.map_some]

/-- No step overflows, whatever the two numbers are. -/
theorem expirySteps_eq (hnow : Realistic now) (hmax : maxTtl < 2 ^ 32)
    (hexp : ∀ x, exp = some x → Fits x) :
    expirySteps maxTtl expiresIn exp now = some (resolved maxTtl expiresIn exp now) := by
  have hoffsets : Fits (now - clockSkewLeeway) ∧ Fits (now + maxTtl) := by
    obtain ⟨hlo, hhi⟩ := hnow
    simp only [Fits, clockSkewLeeway] at *
    omega
  simp only [expirySteps, ttlSteps_eq hnow hmax, Option.bind_some]
  cases exp with
  | none => rfl
  | some x =>
    simp only [checked_of_fits hoffsets.1, checked_of_fits hoffsets.2,
      checked_of_fits (hexp x rfl), Option.bind_some, Option.map_some, ite_lt_eq_min, resolved]
    by_cases hpast : x ≤ now - clockSkewLeeway
    · rw [if_pos hpast, if_pos hpast]
    · rw [if_neg hpast, if_neg hpast]
      cases (positive expiresIn).map fun e : ℤ => now + min e (maxTtl : ℤ) with
      | none => rfl
      | some t => exact congrArg (fun r => some (some r)) (min_comm t _)

theorem resolved_resolves : Resolves maxTtl expiresIn exp now
    (resolved maxTtl expiresIn exp now) := by
  cases exp with
  | none =>
    rcases positive_cases expiresIn with h | ⟨e, h, -⟩
    · exact ⟨by simp [resolved, h], by simp [resolved, h], by simp [resolved, h]⟩
    · refine ⟨by simp [resolved, h], ?_, ?_⟩
      · intro t ht
        simp only [resolved, h, Option.map_some, Option.some.injEq] at ht
        simp [lifetimes, h, ht]
      · intro t ht
        simp only [resolved, h, Option.map_some, Option.some.injEq] at ht
        omega
  | some x =>
    by_cases hpast : x ≤ now - clockSkewLeeway
    · have hnone : resolved maxTtl expiresIn (some x) now = none := if_pos hpast
      rw [hnone]
      exact ⟨by simp [hpast], by simp, by simp⟩
    · rcases positive_cases expiresIn with h | ⟨e, h, -⟩
      · have hsome : resolved maxTtl expiresIn (some x) now = some (min x (now + maxTtl)) := by
          simp only [resolved, if_neg hpast, h, Option.map_none]
        rw [hsome]
        refine ⟨by simp [hpast], ?_, ?_⟩
        · rintro t ⟨⟩
          simp [lifetimes, h, le_total]
        · rintro t ⟨⟩
          exact min_le_right x _
      · have hsome : resolved maxTtl expiresIn (some x) now =
            some (min (min x (now + maxTtl)) (now + min e maxTtl)) := by
          simp only [resolved, if_neg hpast, h, Option.map_some]
        rw [hsome]
        refine ⟨by simp [hpast], ?_, ?_⟩
        · rintro t ⟨⟩
          simp only [lifetimes, h, Option.toList_some, List.map_cons, List.map_nil,
            List.cons_append, List.nil_append, List.mem_cons, List.not_mem_nil, or_false,
            forall_eq_or_imp, forall_eq]
          exact ⟨(min_choice _ _).symm, min_le_right _ _, min_le_left _ _⟩
        · rintro t ⟨⟩
          exact (min_le_left _ _).trans (min_le_right x _)

theorem freshSteps_eq {t expiry : ℤ} {buffer : ℕ} (ht : Realistic t) (hbuffer : buffer < 2 ^ 32) :
    freshSteps buffer expiry t = some (decide (t + buffer < expiry)) := by
  have hfits : Fits (t + buffer) := by
    obtain ⟨hlo, hhi⟩ := ht
    simp only [Fits, clockSkewLeeway] at *
    omega
  simp only [freshSteps, checked_of_fits hfits, Option.map_some]

end steps

section scanned

theorem strtoll_fits {cs : List Char} {v : ℤ} (h : strtoll cs = some v) : Fits v := by
  simp only [strtoll] at h
  split_ifs at h with hempty hneg
  · cases h
    simp only [Fits]
    omega
  · cases h
    simp only [Fits]
    omega

theorem jsonGetNumber_fits {body key : List Char} {v : ℤ} (h : jsonGetNumber body key = some v) :
    Fits v := by
  simp only [jsonGetNumber, Option.bind_eq_some_iff] at h
  obtain ⟨text, -, htext⟩ := h
  exact strtoll_fits htext

/-- The expiry that a token states is read by the same scanner. -/
theorem jwsExp_run (token : String) (e : Env) :
    ∃ x e', jwsExp token e = .ok (x, e') ∧ ∀ v, x = some v → Fits v := by
  simp only [jwsExp]
  cases jwsPayload token.toList with
  | none => exact ⟨none, e, rfl, by simp⟩
  | some payload =>
    have hdecode : b64urlDecode payload e =
        .ok (if e.alloc.head then b64urlLoop payload 0 0 else none, e.popAlloc) := by
      simp only [b64urlDecode]
      rw [Prog.bind_of_ok (alloc_apply e)]
      cases e.alloc.head <;> rfl
    dsimp only
    rw [Prog.bind_of_ok hdecode]
    cases (if e.alloc.head then b64urlLoop payload 0 0 else none) with
    | none => exact ⟨none, _, rfl, by simp⟩
    | some text => exact ⟨_, _, rfl, fun v hv => jsonGetNumber_fits hv⟩

theorem resolveExpiry_run (cfg : OwnedConfig) (body token : String) (now : ℤ) {e e' : Env}
    {x : Option ℤ} (h : jwsExp token e = .ok (x, e')) :
    resolveExpiry cfg body token now e =
      .ok (resolved cfg.maxTtlSeconds (jsonGetNumber body.toList "expires_in".toList) x now, e') := by
  simp only [resolveExpiry]
  rw [Prog.bind_of_ok h]
  generalize jsonGetNumber body.toList "expires_in".toList = found
  cases found with
  | none =>
    cases x with
    | none => rfl
    | some x =>
      simp only [resolved, positive, Option.filter_none, Option.map_none]
      split_ifs <;> rfl
  | some v =>
    by_cases hpos : 0 < v
    · cases x with
      | none => simp [resolved, positive, hpos, Prog.pure_apply]
      | some x =>
        simp only [resolved, positive, Option.filter_some, hpos, decide_true, if_true,
          Option.map_some]
        split_ifs <;> rfl
    · cases x with
      | none =>
        simp only [resolved, positive, Option.filter_some, hpos, decide_false, if_false,
          Bool.false_eq_true, Option.map_none]
        rfl
      | some x =>
        simp only [resolved, positive, Option.filter_some, hpos, decide_false, if_false,
          Bool.false_eq_true, Option.map_none]
        split_ifs <;> rfl

end scanned

section reuse

/-- The expiry in the cache is one that was resolved when the token was taken. -/
def Dated (ob : Outbound) : Prop :=
  ∀ token, ob.cachedToken = some token → ∃ body taken e e',
    resolveExpiry ob.cfg body token taken e = .ok (some ob.cachedExpiry, e')

variable {ob ob' : Outbound} {scope : String} {e e' : Env}

theorem Dated.congr (h : Dated ob) (hcfg : ob'.cfg = ob.cfg)
    (htoken : ob'.cachedToken = ob.cachedToken) (hexpiry : ob'.cachedExpiry = ob.cachedExpiry) :
    Dated ob' := by
  intro token ht
  rw [hcfg, hexpiry]
  exact h token (htoken.symm.trans ht)

theorem acceptToken_dated {body : String} {r : Refresh × Outbound}
    (h : acceptGrant.acceptToken ob body e = .ok (r, e')) (hob : Dated ob) : Dated r.2 := by
  simp only [acceptGrant.acceptToken] at h
  obtain ⟨token, e₁, -, h⟩ := Prog.bind_eq_ok.1 h
  obtain ⟨type, e₂, -, h⟩ := Prog.bind_eq_ok.1 h
  cases token with
  | none =>
    cases h
    exact hob
  | some token =>
    cases type with
    | none =>
      cases h
      exact hob
    | some type =>
      dsimp only at h
      split_ifs at h with hbearer
      · obtain ⟨now, e₃, -, h⟩ := Prog.bind_eq_ok.1 h
        obtain ⟨expiry, e₄, hexpiry, h⟩ := Prog.bind_eq_ok.1 h
        cases expiry with
        | none =>
          cases h
          exact hob
        | some expiry =>
          cases h
          intro held hheld
          cases hheld
          exact ⟨body, now, e₃, _, hexpiry⟩
      · cases h
        exact hob

theorem acceptGrant_dated {body : String} {r : Refresh × Outbound}
    (h : acceptGrant ob body e = .ok (r, e')) (hob : Dated ob) : Dated r.2 := by
  simp only [acceptGrant] at h
  obtain ⟨err, e₁, -, h⟩ := Prog.bind_eq_ok.1 h
  cases err with
  | none => exact acceptToken_dated h hob
  | some err =>
    dsimp only at h
    split_ifs at h with hempty
    · cases h
      exact hob
    · exact acceptToken_dated h hob

theorem refreshLocked_dated {r : Refresh × Outbound}
    (h : refreshLocked ob scope e = .ok (r, e')) (hob : Dated ob) : Dated r.2 := by
  simp only [refreshLocked] at h
  obtain ⟨form, e₁, -, h⟩ := Prog.bind_eq_ok.1 h
  cases form with
  | none =>
    cases h
    exact hob
  | some form =>
    obtain ⟨auth, e₂, -, h⟩ := Prog.bind_eq_ok.1 h
    obtain ⟨a, e₃, -, h⟩ := Prog.bind_eq_ok.1 h
    by_cases hrc : a.rc ≠ 0
    · rw [if_pos hrc] at h
      cases h
      exact hob
    · rw [if_neg hrc] at h
      cases hbody : a.body with
      | none =>
        simp only [hbody] at h
        split_ifs at h
        · cases h
          exact hob
        · cases h
          exact hob
      | some body =>
        simp only [hbody] at h
        split_ifs at h
        · exact acceptGrant_dated h hob
        · cases h
          exact hob
        · obtain ⟨err, e₄, -, h⟩ := Prog.bind_eq_ok.1 h
          cases h
          exact hob

theorem acquireLoop_dated {left attempt : ℕ} {got : Bool}
    (h : acquireLoop scope left attempt ob e = .ok ((got, ob'), e')) (hob : Dated ob) :
    Dated ob' := by
  induction left generalizing attempt ob e with
  | zero =>
    cases h
    exact hob
  | succ left ih =>
    simp only [acquireLoop] at h
    obtain ⟨⟨o, ob₁⟩, e₁, hrun, h⟩ := Prog.bind_eq_ok.1 h
    have hob₁ : Dated ob₁ := refreshLocked_dated hrun hob
    cases o with
    | ok =>
      cases h
      exact hob₁
    | deadLetter status err =>
      dsimp only at h
      rw [Prog.bind_of_ok (recordDeadLetterLocked_eq ob₁ status err e₁)] at h
      cases h
      exact hob₁.congr rfl rfl rfl
    | retriable =>
      dsimp only at h
      split_ifs at h with hleft
      · exact ih h (hob₁.congr rfl rfl rfl)
      · cases h
        exact hob₁

theorem ensureFresh_dated {got : Bool} (h : ensureFresh ob scope e = .ok ((got, ob'), e'))
    (hob : Dated ob) : Dated ob' := by
  rw [ensureFresh_eq] at h
  split_ifs at h with hfresh
  · cases h
    exact hob
  · exact acquireLoop_dated h hob

theorem acquireOwnedCopyLocked_dated {bearer : Option String}
    (h : acquireOwnedCopyLocked ob scope e = .ok ((bearer, ob'), e')) (hob : Dated ob) :
    Dated ob' := by
  simp only [acquireOwnedCopyLocked] at h
  obtain ⟨⟨got, ob₁⟩, e₁, hensure, h⟩ := Prog.bind_eq_ok.1 h
  have hob₁ := ensureFresh_dated hensure hob
  cases got with
  | false =>
    cases h
    exact hob₁
  | true =>
    cases htoken : ob₁.cachedToken with
    | none =>
      simp only [htoken] at h
      cases h
      exact hob₁
    | some held =>
      simp only [htoken] at h
      obtain ⟨copy, e₂, -, h⟩ := Prog.bind_eq_ok.1 h
      cases h
      exact hob₁

/-- A token that comes without a request was fresh. -/
theorem acquireOwnedCopyLocked_fresh {token : String}
    (h : acquireOwnedCopyLocked ob scope e = .ok ((some token, ob'), e'))
    (hposts : posts e'.effects = posts e.effects) :
    cachedTokenFresh ob e.time.head = true ∧ ob.cachedToken = some token := by
  obtain ⟨hbounded, hheld⟩ := acquireOwnedCopyLocked_bounded h
  have hfresh : cachedTokenFresh ob e.time.head = true := by
    by_contra hstale
    simp only [acquireOwnedCopyLocked] at h
    obtain ⟨⟨got, ob₁⟩, e₁, hensure, h⟩ := Prog.bind_eq_ok.1 h
    rw [ensureFresh_eq, if_neg hstale] at hensure
    cases got with
    | false => cases h
    | true =>
      obtain ⟨-, -, -, hgot⟩ := acquireLoop_settled hensure
      obtain ⟨k, body, token', hcount, -⟩ := hgot rfl
      have hmore : posts e'.effects = posts e₁.effects := by
        cases htoken : ob₁.cachedToken with
        | none =>
          simp only [htoken] at h
          cases h
        | some held =>
          simp only [htoken] at h
          obtain ⟨copy, e₂, hcopy, h⟩ := Prog.bind_eq_ok.1 h
          have hd := ((gives_allocated (F := fun _ => True) held).of_ok hcopy).2
          cases h
          rw [hd.effects_eq]
      change posts e₁.effects = posts e.effects + (k + 1) at hcount
      omega
  refine ⟨hfresh, ?_⟩
  rw [← (hbounded.fresh hfresh).1]
  exact hheld token rfl

/-- A call of either kind goes through the locked copy, unless the handle is disabled. -/
theorem Gets.owned {override bearer : Option String} (h : Gets ob override e bearer ob' e') :
    (bearer = none ∧ ob' = ob) ∨ ∃ owned e₁,
      acquireOwnedCopyLocked ob (override.getD ob.cfg.defaultScope) e =
        .ok ((owned, ob'), e₁) ∧ e'.effects = e₁.effects ∧
      ∀ token, bearer = some token → owned = some token := by
  have hlines {headers : List String} {st : Attach}
      (run : attachBearer ob override headers e = .ok ((st, ob'), e')) :
      (ob' = ob ∧ st = .noAttach) ∨ ∃ owned e₁,
        acquireOwnedCopyLocked ob (override.getD ob.cfg.defaultScope) e =
          .ok ((owned, ob'), e₁) ∧ e'.effects = e₁.effects ∧
        ∀ headers', st = .ok headers' →
          ∃ token, owned = some token ∧ headers' = headers ++ [bearerLine token] := by
    simp only [attachBearer] at run
    split_ifs at run with hon
    · obtain ⟨⟨owned, ob₁⟩, e₁, hown, run⟩ := Prog.bind_eq_ok.1 run
      right
      cases owned with
      | none =>
        cases run
        exact ⟨none, _, hown, rfl, by simp⟩
      | some token =>
        dsimp only at run
        rw [Prog.bind_of_ok (alloc_apply e₁)] at run
        split_ifs at run with hline
        · rw [Prog.bind_of_ok (alloc_apply e₁.popAlloc)] at run
          split_ifs at run with hnode
          · cases run
            refine ⟨some token, e₁, hown, rfl, ?_⟩
            rintro headers' ⟨⟩
            exact ⟨token, rfl, rfl⟩
          · cases run
            exact ⟨some token, e₁, hown, rfl, by simp⟩
        · cases run
          exact ⟨some token, e₁, hown, rfl, by simp⟩
    · cases run
      exact Or.inl ⟨rfl, rfl⟩
  cases h with
  | acquired run =>
    simp only [acquire] at run
    split_ifs at run with hon
    · obtain ⟨⟨owned, ob₁⟩, e₁, hown, run⟩ := Prog.bind_eq_ok.1 run
      right
      cases owned with
      | none =>
        cases run
        exact ⟨none, _, hown, rfl, by simp⟩
      | some token =>
        cases run
        exact ⟨some token, _, hown, rfl, by simp⟩
    · cases run
      exact Or.inl ⟨rfl, rfl⟩
  | @attached headers token _ _ run =>
    rcases hlines run with ⟨-, hno⟩ | ⟨owned, e₁, hown, heffects, hok⟩
    · cases hno
    · refine Or.inr ⟨owned, e₁, hown, heffects, ?_⟩
      rintro _ ⟨⟩
      obtain ⟨token', rfl, hheaders⟩ := hok _ rfl
      rw [bearerLine_inj (List.head_eq_of_cons_eq (List.append_cancel_left hheaders))]
  | refused run notOk =>
    rcases hlines run with ⟨hsame, -⟩ | ⟨owned, e₁, hown, heffects, -⟩
    · exact Or.inl ⟨rfl, hsame⟩
    · exact Or.inr ⟨owned, e₁, hown, heffects, by simp⟩

/-- What holds of the handle in every session: its configuration stands, and its cache is
dated. -/
theorem session_dated {ob : Outbound} {e : Env} {s : Session} (hempty : ob.cachedToken = none)
    (h : Relation.ReflTransGen Session.Step (Session.start ob e) s) :
    s.ob.cfg = ob.cfg ∧ Dated s.ob := by
  induction h with
  | refl =>
    refine ⟨rfl, ?_⟩
    intro token htoken
    exact absurd (hempty.symm.trans htoken) (by simp)
  | tail _ hstep ih =>
    obtain ⟨override, bearer, ob', e', hgets, rfl⟩ := hstep
    rcases hgets.owned with ⟨-, rfl⟩ | ⟨owned, e₁, hown, -, -⟩
    · exact ih
    · exact ⟨(acquireOwnedCopyLocked_bounded hown).1.cfg.trans ih.1,
        acquireOwnedCopyLocked_dated hown ih.2⟩

/-- A token that a call hands out without a request of its own is still fresh, by a test that
does not overflow either. -/
theorem reused_fresh {ob₀ : Outbound} {e₀ : Env} {s : Session} (hempty : ob₀.cachedToken = none)
    (hrun : Relation.ReflTransGen Session.Step (Session.start ob₀ e₀) s)
    {override : Option String} {token : String}
    (hgets : Gets s.ob override s.env (some token) ob' e')
    (hposts : posts e'.effects = posts s.env.effects) :
    s.env.time.head + ob₀.cfg.refreshBufferSeconds < s.ob.cachedExpiry ∧
      ∃ body taken e e', resolveExpiry ob₀.cfg body token taken e =
        .ok (some s.ob.cachedExpiry, e') := by
  obtain ⟨hcfg, hdated⟩ := session_dated hempty hrun
  rcases hgets.owned with ⟨hno, -⟩ | ⟨owned, e₁, hown, heffects, hbearer⟩
  · cases hno
  · rw [hbearer token rfl] at hown
    rw [heffects] at hposts
    obtain ⟨hfresh, hheld⟩ := acquireOwnedCopyLocked_fresh hown hposts
    simp only [cachedTokenFresh, Bool.and_eq_true, decide_eq_true_eq, hcfg] at hfresh
    have hexpiry := hdated token hheld
    rw [hcfg] at hexpiry
    exact ⟨hfresh.2, hexpiry⟩

end reuse

/-- Expiry arithmetic. Whatever the response and the token say, the resolved expiry is the
earliest of the capped lifetimes, no step overflows, and a token that is served from the cache
of any session is within the lifetime that was resolved for it, by the buffer at least. -/
theorem token_expiry_arithmetic (cfg : OwnedConfig)
    (hmax : cfg.maxTtlSeconds < 2 ^ 32) (hbuffer : cfg.refreshBufferSeconds < 2 ^ 32) :
    (∀ body token now e, Realistic now → ∃ exp e' r,
      jwsExp token e = .ok (exp, e') ∧ resolveExpiry cfg body token now e = .ok (r, e') ∧
      Resolves cfg.maxTtlSeconds (jsonGetNumber body.toList "expires_in".toList) exp now r ∧
      expirySteps cfg.maxTtlSeconds (jsonGetNumber body.toList "expires_in".toList) exp now =
        some r) ∧
    ∀ ob₀ e₀ s, ob₀.cfg = cfg → ob₀.cachedToken = none →
      Relation.ReflTransGen Session.Step (Session.start ob₀ e₀) s →
      ∀ override token ob' e', Gets s.ob override s.env (some token) ob' e' →
        posts e'.effects = posts s.env.effects →
        s.env.time.head + cfg.refreshBufferSeconds < s.ob.cachedExpiry ∧
        (Realistic s.env.time.head →
          freshSteps cfg.refreshBufferSeconds s.ob.cachedExpiry s.env.time.head = some true) ∧
        ∃ body taken e e', resolveExpiry cfg body token taken e =
          .ok (some s.ob.cachedExpiry, e') ∧ s.ob.cachedExpiry ≤ taken + cfg.maxTtlSeconds := by
  constructor
  · intro body token now e hnow
    obtain ⟨exp, e', hexp, hfits⟩ := jwsExp_run token e
    exact ⟨exp, e', _, hexp, resolveExpiry_run cfg body token now hexp, resolved_resolves,
      expirySteps_eq hnow hmax hfits⟩
  · intro ob₀ e₀ s hcfg hempty hrun override token ob' e' hgets hposts
    subst hcfg
    obtain ⟨hlt, body, taken, e, e₁, hresolve⟩ := reused_fresh hempty hrun hgets hposts
    obtain ⟨exp, e₂, hexp, -⟩ := jwsExp_run token e
    have hvalue := resolveExpiry_run ob₀.cfg body token taken hexp
    rw [hresolve] at hvalue
    simp only [Except.ok.injEq, Prod.mk.injEq] at hvalue
    have hbound := resolved_resolves.bounded _ hvalue.1.symm
    refine ⟨hlt, ?_, body, taken, e, e₁, hresolve, hbound⟩
    intro hnow
    rw [freshSteps_eq hnow hbuffer, decide_eq_true hlt]

/-- An answer that announces a lifetime beyond every range. -/
def endlessBody : String := "\x7b\"expires_in\":99999999999999999999\x7d"

theorem token_expiry_arithmetic_saturated : ∃ exp e' r,
    resolveExpiry (sampleOutbound true).cfg endlessBody "opaque" 1000 Env.quiet = .ok (r, e') ∧
    Resolves (sampleOutbound true).cfg.maxTtlSeconds
      (jsonGetNumber endlessBody.toList "expires_in".toList) exp 1000 r := by
  have hnow : Realistic 1000 := by
    simp only [Realistic, clockSkewLeeway]
    omega
  obtain ⟨exp, e', r, -, hresolve, hr, -⟩ := (token_expiry_arithmetic (sampleOutbound true).cfg
    (by decide) (by decide)).1 endlessBody "opaque" 1000 Env.quiet hnow
  exact ⟨exp, e', r, hresolve, hr⟩

end Nssf.OAuth
