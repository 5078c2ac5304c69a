import Nssf.OAuth.Machine
import Nssf.Base.Transition

/-! Which scope a bearer was asked for. The cache keeps one token whatever it was asked for, so
a call is served with the token of an earlier one until that token has to be renewed. -/

namespace Nssf.OAuth

open Base Run

section form

/-- The forms of the token requests, oldest first. -/
def forms (effects : List Effect) : List String :=
  effects.filterMap fun
    | .tokenPost _ form _ => some form
    | _ => none

/-- The scope parameter of a form, as it stands there. -/
def formScope? (form : String) : Option String :=
  (form.toList.splitOn '&').findSome? fun p =>
    if "scope=".toList.isPrefixOf p then some (String.ofList (p.drop 6)) else none

theorem amp_notMem_curlEscape (s : String) : '&' ∉ (curlEscape s).toList := by
  have hdigit (n : ℕ) : upperHex n ≠ '&' := by
    by_cases hn : n < 16
    · revert n
      decide
    · have hstar : Nat.digitChar n = '*' := by
        unfold Nat.digitChar
        repeat rw [if_neg (by omega)]
      unfold upperHex
      rw [hstar]
      decide
  unfold curlEscape
  rw [String.toList_ofList, List.mem_flatMap]
  rintro ⟨c, -, hc⟩
  split_ifs at hc with hunreserved
  · rw [List.mem_singleton] at hc
    rw [← hc] at hunreserved
    revert hunreserved
    decide
  · simp only [List.mem_cons, List.not_mem_nil, or_false] at hc
    rcases hc with hc | hc | hc
    · revert hc
      decide
    · exact hdigit _ hc.symm
    · exact hdigit _ hc.symm

/-- The parameters of a form behind the first one. -/
theorem formScope?_cons {first param rest : List Char} {value : String}
    (hfirst : '&' ∉ first) (hskip : "scope=".toList.isPrefixOf first = false)
    (hparam : param = "scope=".toList ++ value.toList) (hvalue : '&' ∉ param) :
    formScope? (String.ofList (first ++ '&' :: (param ++ '&' :: rest))) = some value := by
  have hfound : "scope=".toList.isPrefixOf param = true := by
    rw [List.isPrefixOf_iff_prefix, hparam]
    exact List.prefix_append _ _
  have hdrop : param.drop 6 = value.toList := by
    rw [hparam]
    exact @List.drop_left Char "scope=".toList value.toList
  have htext : (String.ofList (first ++ '&' :: (param ++ '&' :: rest))).toList =
      first ++ '&' :: (param ++ '&' :: rest) := String.toList_ofList
  unfold formScope?
  rw [htext, List.splitOn_append_cons_self_of_not_mem hfirst,
    List.splitOn_append_cons_self_of_not_mem hvalue, List.findSome?_cons, hskip,
    List.findSome?_cons, hfound, hdrop]
  simp

theorem form_toList (cfg : OwnedConfig) (scope : String) :
    ∃ rest, (form cfg scope).toList = "grant_type=client_credentials".toList ++
      '&' :: ("scope=".toList ++ (curlEscape scope).toList ++ '&' :: rest) := by
  have hscope : "&scope=".toList = '&' :: "scope=".toList := by decide
  have hid : "&nfInstanceId=".toList = '&' :: "nfInstanceId=".toList := by decide
  have happend : (form cfg scope).toList = "grant_type=client_credentials".toList ++
      ("&scope=".toList ++ (curlEscape scope).toList) ++
      ("&nfInstanceId=".toList ++ (curlEscape cfg.nfInstanceId).toList) ++
      (formPart "&client_secret=" (secret? cfg)).toList := by
    unfold form
    rw [String.toList_append, String.toList_append, String.toList_append, String.toList_append,
      String.toList_append]
  rw [happend, hscope, hid]
  generalize "grant_type=client_credentials".toList = grantType
  generalize "scope=".toList = scopeName
  generalize "nfInstanceId=".toList = idName
  refine ⟨idName ++ (curlEscape cfg.nfInstanceId).toList ++
    (formPart "&client_secret=" (secret? cfg)).toList, ?_⟩
  simp only [List.cons_append, List.append_assoc]

theorem formScope?_form (cfg : OwnedConfig) (scope : String) :
    formScope? (form cfg scope) = some (curlEscape scope) := by
  obtain ⟨rest, hrest⟩ := form_toList cfg scope
  have hvalue : '&' ∉ "scope=".toList ++ (curlEscape scope).toList := by
    rw [List.mem_append, not_or]
    exact ⟨by decide, amp_notMem_curlEscape scope⟩
  rw [← String.ofList_toList (s := form cfg scope), hrest]
  exact formScope?_cons (by decide) (by decide) rfl hvalue

end form

/-- The handle with what was asked of it so far: the scope of the call that last fetched a
token, and the scope and token of every call that was served. -/
structure Session where
  ob : Outbound
  env : Env
  lastFetched : Option String
  served : List (String × String)

/-- A call of either kind, by the bearer it hands out or attaches. -/
inductive Gets (ob : Outbound) (override : Option String) (e : Env) :
    Option String → Outbound → Env → Prop
  | acquired {st : Attach} {bearer : Option String} {ob' : Outbound} {e' : Env}
      (run : acquire ob override e = .ok ((st, bearer, ob'), e')) :
      Gets ob override e bearer ob' e'
  | attached {headers : List String} {token : String} {ob' : Outbound} {e' : Env}
      (run : attachBearer ob override headers e =
        .ok ((.ok (headers ++ [bearerLine token]), ob'), e')) :
      Gets ob override e (some token) ob' e'
  | refused {headers : List String} {st : Attach} {ob' : Outbound} {e' : Env}
      (run : attachBearer ob override headers e = .ok ((st, ob'), e'))
      (notOk : ∀ headers', st ≠ .ok headers') :
      Gets ob override e none ob' e'

namespace Session

def scope (s : Session) (override : Option String) : String :=
  override.getD s.ob.cfg.defaultScope

def fresh (s : Session) : Bool := cachedTokenFresh s.ob s.env.time.head

def after (s : Session) (override bearer : Option String) (ob' : Outbound) (e' : Env) :
    Session where
  ob := ob'
  env := e'
  lastFetched :=
    if s.fresh = false ∧ bearer.isSome = true then some (s.scope override) else s.lastFetched
  served := s.served ++ bearer.toList.map fun token => (s.scope override, token)

/-- One call. -/
def Step (s s' : Session) : Prop :=
  ∃ override bearer ob' e', Gets s.ob override s.env bearer ob' e' ∧
    s' = s.after override bearer ob' e'

/-- One call that memory suffices for, and that finds a fresh token only where it asks for the
scope that the token was fetched for. -/
def AlignedStep (s s' : Session) : Prop :=
  ∃ override bearer ob' e', s.env.AllocOk ∧
    (s.fresh = true → s.lastFetched = some (s.scope override)) ∧
    Gets s.ob override s.env bearer ob' e' ∧ s' = s.after override bearer ob' e'

/-- A new handle, before its first call. -/
def start (ob : Outbound) (e : Env) : Session := ⟨ob, e, none, []⟩

end Session

/-- Among the requests made from `e₀` on there is one with that scope in its form, and the
answer to it carries the token. -/
def Obtained (e₀ e : Env) (scope token : String) : Prop :=
  ∃ log k form body, e.effects = e₀.effects ++ log ∧ (forms log)[k]? = some form ∧
    formScope? form = some (curlEscape scope) ∧ e₀.token.get k = ⟨0, 200, some body⟩ ∧
    jsonString? body "access_token" = some token

section requests

variable {e₀ e e' : Env} {ob ob' : Outbound} {scope token : String}

theorem forms_append (xs ys : List Effect) : forms (xs ++ ys) = forms xs ++ forms ys :=
  List.filterMap_append

theorem Obtained.later {more : List Effect} (h : Obtained e₀ e scope token)
    (he : e'.effects = e.effects ++ more) : Obtained e₀ e' scope token := by
  obtain ⟨log, k, form, body, hlog, hk, hform⟩ := h
  refine ⟨log ++ more, k, form, body, ?_, ?_, hform⟩
  · rw [he, hlog, List.append_assoc]
  · rw [forms_append, List.getElem?_append_left (List.getElem?_eq_some_iff.1 hk).1]
    exact hk

/-- The requests of one call, the repeated ones and the last, all ask for the same. -/
def attemptLog (ob : Outbound) (scope : String) (e : Env) (m : ℕ) : List Effect :=
  ((List.range m).flatMap fun k => repeated ob.cfg scope k) ++
    tokenRequest ob.cfg scope :: signals ob (outcomeAt ob.cfg e m)

theorem forms_attemptLog (ob : Outbound) (scope : String) (e : Env) (m : ℕ) :
    forms (attemptLog ob scope e m) = List.replicate (m + 1) (form ob.cfg scope) := by
  have hsignals (o : Refresh) : forms (signals ob o) = [] := by
    cases o with
    | ok => rfl
    | retriable => rfl
    | deadLetter status err =>
      unfold signals
      split_ifs
      · rfl
      · rfl
  have hrepeated : forms ((List.range m).flatMap fun k => repeated ob.cfg scope k) =
      List.replicate m (form ob.cfg scope) := by
    induction m with
    | zero => rfl
    | succ m ih =>
      rw [List.range_succ, List.flatMap_append, forms_append, ih, List.replicate_succ']
      rfl
  have hlast : forms (tokenRequest ob.cfg scope :: signals ob (outcomeAt ob.cfg e m)) =
      form ob.cfg scope :: forms (signals ob (outcomeAt ob.cfg e m)) := rfl
  unfold attemptLog
  rw [forms_append, hrepeated, hlast, hsignals, List.replicate_succ']

/-- The token of a call that asked and got one. -/
theorem Attempted.obtained {m : ℕ} {log : List Effect}
    (h : Attempted ob scope e m ob' e') (hok : outcomeAt ob.cfg e m = .ok)
    (hlog : e.effects = e₀.effects ++ log) (hans : e.token = e₀.token.drop (forms log).length) :
    ∃ token, ob'.cachedToken = some token ∧ Obtained e₀ e' scope token := by
  obtain ⟨body, token, expiry, hbody, hgrant, htoken, -⟩ := h.taken hok
  refine ⟨token, htoken, log ++ attemptLog ob scope e m, (forms log).length + m,
    form ob.cfg scope, body, ?_, ?_, formScope?_form _ _, ?_, ?_⟩
  · rw [h.effects, hlog]
    unfold attemptLog
    rw [List.append_assoc, List.append_assoc]
  · rw [forms_append, forms_attemptLog, List.getElem?_append_right (Nat.le_add_right _ _),
      Nat.add_sub_cancel_left, List.getElem?_replicate, if_pos (Nat.lt_succ_self m)]
  · rw [← hbody, hans, Stream'.get_drop]
  · unfold grant? at hgrant
    cases haccess : jsonString? body "access_token" with
    | none =>
      rw [haccess] at hgrant
      cases hgrant
    | some token' =>
      rw [haccess] at hgrant
      simp only [Option.bind_eq_bind, Option.bind_some, Option.bind_eq_some_iff] at hgrant
      obtain ⟨type, -, hgrant⟩ := hgrant
      split_ifs at hgrant
      obtain ⟨expiry', -, hpair⟩ := Option.map_eq_some_iff.1 hgrant
      cases hpair
      rfl

end requests

section session

variable {e₀ : Env} {s s' : Session}

theorem bearerLine_inj {token token' : String} (h : bearerLine token = bearerLine token') :
    token = token' := by
  have htext := congrArg String.toList h
  unfold bearerLine at htext
  rw [String.toList_append, String.toList_append, List.append_cancel_left_eq] at htext
  exact String.toList_inj.1 htext

/-- With enough memory a call goes through the machine, unless the handle is disabled. -/
theorem Gets.turn {ob ob' : Outbound} {override bearer : Option String} {e e' : Env}
    (h : Gets ob override e bearer ob' e') (hmax : 0 < ob.cfg.maxAttempts) (he : e.AllocOk) :
    (bearer = none ∧ ob' = ob ∧ e' = e) ∨
      Turn ob (override.getD ob.cfg.defaultScope) e bearer ob' e' := by
  cases hon : ob.cfg.enabled with
  | false =>
    left
    have hno : ¬ob.cfg.enabled = true := by simp [hon]
    cases h with
    | acquired run =>
      unfold acquire at run
      rw [if_neg hno] at run
      cases run
      exact ⟨rfl, rfl, rfl⟩
    | attached run =>
      unfold attachBearer at run
      rw [if_neg hno] at run
      cases run
    | refused run notOk =>
      unfold attachBearer at run
      rw [if_neg hno] at run
      cases run
      exact ⟨rfl, rfl, rfl⟩
  | true =>
    right
    cases h with
    | acquired run =>
      obtain ⟨bearer', ob₁, e₁, hrun, hturn⟩ := acquire_turn hmax hon override he
      rw [run] at hrun
      cases hrun
      exact hturn
    | @attached headers token _ _ run =>
      obtain ⟨bearer', ob₁, e₁, hrun, hturn⟩ := attachBearer_turn hmax hon override headers he
      rw [run] at hrun
      cases bearer' with
      | none => cases hrun
      | some token' =>
        simp only [Except.ok.injEq, Prod.mk.injEq] at hrun
        obtain ⟨⟨hline, rfl⟩, rfl⟩ := hrun
        have hlines := List.append_cancel_left (Attach.ok.inj hline)
        rw [bearerLine_inj (List.head_eq_of_cons_eq hlines)]
        exact hturn
    | @refused headers st _ _ run notOk =>
      obtain ⟨bearer', ob₁, e₁, hrun, hturn⟩ := attachBearer_turn hmax hon override headers he
      rw [run] at hrun
      cases bearer' with
      | none =>
        cases hrun
        exact hturn
      | some token' =>
        simp only [Except.ok.injEq, Prod.mk.injEq] at hrun
        exact absurd hrun.1.1 (notOk _)

/-- The answers that are still to come are those behind the requests made so far. The token in
the cache was obtained for the scope that is remembered, and every token that was handed out
was obtained for the scope of its call. -/
structure Session.Sound (e₀ : Env) (s : Session) : Prop where
  attempts : 0 < s.ob.cfg.maxAttempts
  answers : ∃ log, s.env.effects = e₀.effects ++ log ∧
    s.env.token = e₀.token.drop (forms log).length
  cached : ∀ token, s.ob.cachedToken = some token →
    ∃ scope, s.lastFetched = some scope ∧ Obtained e₀ s.env scope token
  served : ∀ p ∈ s.served, Obtained e₀ s.env p.1 p.2

theorem Session.Sound.served_after {override bearer : Option String} {ob' : Outbound} {e' : Env}
    {more : List Effect} (h : s.Sound e₀) (he : e'.effects = s.env.effects ++ more)
    (hbearer : ∀ token, bearer = some token → Obtained e₀ e' (s.scope override) token) :
    ∀ p ∈ (s.after override bearer ob' e').served, Obtained e₀ e' p.1 p.2 := by
  intro p hp
  rcases List.mem_append.1 hp with hold | hnew
  · exact (h.served p hold).later he
  · obtain ⟨token, htoken, rfl⟩ := List.mem_map.1 hnew
    exact hbearer token (Option.mem_toList.1 htoken)

theorem Session.Sound.step (h : s.Sound e₀) (hs : Session.AlignedStep s s') : s'.Sound e₀ := by
  obtain ⟨override, bearer, ob', e', halloc, haligned, hgets, rfl⟩ := hs
  obtain ⟨log, hlog, hans⟩ := h.answers
  rcases hgets.turn h.attempts halloc with ⟨rfl, rfl, rfl⟩ | hturn
  · have hsame : s.env.effects = s.env.effects ++ [] := (List.append_nil _).symm
    refine ⟨h.attempts, h.answers, ?_, h.served_after hsame (by simp)⟩
    simpa [Session.after] using h.cached
  · change Turn s.ob (s.scope override) s.env bearer ob' e' at hturn
    cases hturn with
    | @cached token _ fresh held still =>
      have hsame : e'.effects = s.env.effects ++ [] := by rw [still.2, List.append_nil]
      obtain ⟨scope', hlast, hobtained⟩ := h.cached token held
      obtain rfl : s.scope override = scope' :=
        Option.some.inj ((haligned fresh).symm.trans hlast)
      refine ⟨h.attempts, ⟨log, still.2.trans hlog, still.1.trans hans⟩, ?_, ?_⟩
      · intro token' htoken'
        refine ⟨s.scope override, ?_, ?_⟩
        · have hfresh : s.fresh = true := fresh
          simp [Session.after, hfresh, hlast]
        · obtain rfl : token = token' := Option.some.inj (held.symm.trans htoken')
          exact hobtained.later hsame
      · apply h.served_after hsame
        rintro token' ⟨⟩
        exact hobtained.later hsame
    | @asked m _ _ stale attempts =>
      have hmore : e'.effects =
          s.env.effects ++ attemptLog s.ob (s.scope override) (clockRead s.env) m := by
        rw [attempts.effects]
        exact List.append_assoc _ _ _
      have hstale : s.fresh = false := stale
      have hcfg := attempts.cfg
      have hanswers : ∃ log, e'.effects = e₀.effects ++ log ∧
          e'.token = e₀.token.drop (forms log).length := by
        refine ⟨log ++ attemptLog s.ob (s.scope override) (clockRead s.env) m, ?_, ?_⟩
        · rw [hmore, hlog, List.append_assoc]
        · have hbefore : (clockRead s.env).token = e₀.token.drop (forms log).length := hans
          rw [attempts.answers, hbefore, forms_append, forms_attemptLog, List.length_append,
            List.length_replicate, Stream'.drop_drop, Nat.add_comm]
      by_cases hok : outcomeAt s.ob.cfg (clockRead s.env) m = .ok
      · obtain ⟨token, htoken, hobtained⟩ := attempts.obtained hok hlog hans
        rw [if_pos hok, htoken]
        refine ⟨hcfg ▸ h.attempts, hanswers, ?_, ?_⟩
        · intro token' htoken'
          obtain rfl : token = token' := Option.some.inj (htoken.symm.trans htoken')
          refine ⟨s.scope override, ?_, ?_⟩
          · simp [Session.after, hstale]
          · exact hobtained
        · apply h.served_after hmore
          rintro token' ⟨⟩
          exact hobtained
      · rw [if_neg hok]
        refine ⟨hcfg ▸ h.attempts, hanswers, ?_, h.served_after hmore (by simp)⟩
        intro token htoken
        have hkept : s.ob.cachedToken = some token := (attempts.kept hok).1.symm.trans htoken
        obtain ⟨scope', hlast, hobtained⟩ := h.cached token hkept
        refine ⟨scope', ?_, hobtained.later hmore⟩
        simpa [Session.after] using hlast

end session

section sample

end sample

end Nssf.OAuth
