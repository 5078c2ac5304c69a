import Nssf.Server.Requests

/-! A request without a grant for the service of its route. Its answer is built from the request
alone, before any store is read: it is the same over any two stores, which stay as they are, and
nothing goes out. -/

namespace Nssf

open Base Run

/-- The scope of the service behind the matched route, nothing if no route takes the request. -/
def Request.scope? (req : Request) : Option String :=
  match req.path, req.method with
  | some path, some method =>
    match resourceOf (routePart path) with
    | .sliceInformation => if method = "GET" then some scopeNsselection else none
    | .availability => if method = "OPTIONS" then some scopeNssaiavailability else none
    | .subscriptions => if method = "POST" then some scopeNssaiavailability else none
    | .subscription _ =>
      if method = "DELETE" ∨ method = "PATCH" then some scopeNssaiavailability else none
    | .nf _ =>
      if method = "PUT" ∨ method = "PATCH" ∨ method = "DELETE" then some scopeNssaiavailability
      else none
    | .unknown => none
  | _, _ => none

/-- From `e` the handler gives the same answer over all stores and leaves them alone. Its status
is one of the list. -/
def Blind (statuses : List ℕ) (handle : Stores → Run (Response × Stores)) (e : Env) : Prop :=
  ∃ answer e', answer.status ∈ statuses ∧ e.Draws e' ∧ ∀ s, handle s e = .ok ((answer, s), e')

section blind

variable {statuses : List ℕ} {req : Request} {validate : BearerValidator} {e : Env}

theorem blind_refuseWith (cause : ProblemCause) (detail : Option String)
    (h : cause.metadata.status ∈ statuses) :
    Blind statuses (fun s => refuseWith req s cause detail) e := by
  obtain ⟨answer, e', hrun, hstatus, hd⟩ := (gives_problem cause detail req.path).ok e
  refine ⟨answer, e', by rw [hstatus]; exact h, hd, ?_⟩
  intro s
  exact Prog.bind_of_ok hrun

/-- What the handler would do behind the gate plays no part. -/
theorem blind_gated {scope : String} (h : req.granted validate scope = false)
    (hunauthorized : 401 ∈ statuses) (hforbidden : 403 ∈ statuses)
    (handle : Stores → Run (Response × Stores)) :
    Blind statuses (fun s => gated validate req s scope (handle s)) e := by
  have hgate : ∃ cause detail, cause.metadata.status ∈ statuses ∧
      securityGate validate scope req.authorization req.path =
        (problem cause detail req.path >>= fun denied => pure (some denied)) := by
    unfold securityGate
    unfold Request.granted at h
    cases hb : req.authorization.bind bearerOf with
    | none => exact ⟨.unauthorizedTokenMissing, none, hunauthorized, rfl⟩
    | some bearer =>
      rw [hb] at h
      simp only at h ⊢
      cases hv : validate bearer with
      | error err => exact ⟨.unauthorizedTokenInvalid, errDetail err, hunauthorized, rfl⟩
      | ok claim =>
        rw [hv] at h
        simp only at h ⊢
        rw [h]
        exact ⟨.forbiddenScopeMismatch, _, hforbidden, rfl⟩
  obtain ⟨cause, detail, hmem, hgate⟩ := hgate
  obtain ⟨answer, e', hrun, hstatus, hd⟩ := (gives_problem cause detail req.path).ok e
  have hdenied : securityGate validate scope req.authorization req.path e =
      .ok (some answer, e') := by
    rw [hgate]
    exact Prog.bind_of_ok hrun
  refine ⟨answer, e', by rw [hstatus]; exact hmem, hd, ?_⟩
  intro s
  exact Prog.bind_of_ok hdenied

/-- The id of the path is copied before the handler is chosen. -/
theorem blind_allocated {α : Type} (a : α) {f : Stores → Option α → Run (Response × Stores)}
    (h : ∀ e₁, Blind statuses (fun s => f s none) e₁ ∧ Blind statuses (fun s => f s (some a)) e₁) :
    Blind statuses (fun s => allocated a >>= f s) e := by
  obtain ⟨o, e₁, hrun, ho, hd⟩ := (gives_allocated (F := fun _ => False) a).ok e
  have hrest : Blind statuses (fun s => f s o) e₁ := by
    rcases ho with rfl | rfl
    · exact (h e₁).1
    · exact (h e₁).2
  obtain ⟨answer, e', hstatus, hd', hall⟩ := hrest
  refine ⟨answer, e', hstatus, hd.trans hd', ?_⟩
  intro s
  change (allocated a >>= f s) e = _
  rw [Prog.bind_of_ok hrun]
  exact hall s

end blind

/-- What an ungranted request can be answered with. -/
def deniedStatuses : List ℕ := [401, 403, 404, 405, 414, 500]

theorem routerDispatch_blind {deps : RouterDeps} {req : Request}
    (h : ∀ scope, req.scope? = some scope → req.granted deps.validate scope = false) (e : Env) :
    Blind deniedStatuses (routerDispatch deps req) e := by
  have hrefuse (cause : ProblemCause) (detail : Option String)
      (hmem : cause.metadata.status ∈ deniedStatuses) (e : Env) :
      Blind deniedStatuses (fun s => refuseWith req s cause detail) e :=
    blind_refuseWith cause detail hmem
  have hgated {scope : String} (hs : req.scope? = some scope)
      (handle : Stores → Run (Response × Stores)) (e : Env) :
      Blind deniedStatuses (fun s => gated deps.validate req s scope (handle s)) e :=
    blind_gated (h scope hs) (by decide) (by decide) handle
  unfold Request.scope? at hgated
  unfold routerDispatch
  cases hpath : req.path with
  | none => exact hrefuse _ _ (by decide) e
  | some path =>
    cases hmethod : req.method with
    | none => exact hrefuse _ _ (by decide) e
    | some method =>
      rw [hpath, hmethod] at hgated
      dsimp only at hgated ⊢
      cases hres : resourceOf (routePart path) with
      | sliceInformation =>
        rw [hres] at hgated
        dsimp only at hgated ⊢
        split_ifs with hm
        · exact hgated (if_pos hm) _ e
        · exact hrefuse _ _ (by decide) e
      | availability =>
        rw [hres] at hgated
        dsimp only at hgated ⊢
        split_ifs with hm
        · exact hgated (if_pos hm) _ e
        · exact hrefuse _ _ (by decide) e
      | subscriptions =>
        rw [hres] at hgated
        dsimp only at hgated ⊢
        split_ifs with hm
        · exact hgated (if_pos hm) _ e
        · exact hrefuse _ _ (by decide) e
      | subscription id =>
        rw [hres] at hgated
        refine blind_allocated id fun e₁ => ⟨hrefuse _ _ (by decide) e₁, ?_⟩
        dsimp only at hgated ⊢
        split_ifs with hdelete hpatch
        · exact hgated (if_pos (Or.inl hdelete)) _ e₁
        · exact hgated (if_pos (Or.inr hpatch)) _ e₁
        · exact hrefuse _ _ (by decide) e₁
      | nf nfId =>
        rw [hres] at hgated
        refine blind_allocated nfId fun e₁ => ⟨hrefuse _ _ (by decide) e₁, ?_⟩
        dsimp only at hgated ⊢
        split_ifs with hput hpatch hdelete
        · exact hgated (if_pos (Or.inl hput)) _ e₁
        · exact hgated (if_pos (Or.inr (Or.inl hpatch))) _ e₁
        · exact hgated (if_pos (Or.inr (Or.inr hdelete))) _ e₁
        · exact hrefuse _ _ (by decide) e₁
      | unknown => exact hrefuse _ _ (by decide) e

theorem ungranted_request_denied {deps : RouterDeps} {req : Request}
    (h : ∀ scope, req.scope? = some scope → req.granted deps.validate scope = false) (e : Env)
    (s₁ s₂ : Stores) :
    ∃ answer e', routerDispatch deps req s₁ e = .ok ((answer, s₁), e') ∧
      routerDispatch deps req s₂ e = .ok ((answer, s₂), e') ∧
      answer.status ∈ [401, 403, 404, 405, 414, 500] ∧ e'.effects = e.effects := by
  obtain ⟨answer, e', hstatus, hd, hall⟩ := routerDispatch_blind h e
  exact ⟨answer, e', hall s₁, hall s₂, hstatus, hd.effects_eq⟩

/-- A post with a bearer for the selection only, over an empty store and over one that already
holds a subscription. -/
theorem ungranted_post_denied :
    callbackPost.scope? = some scopeNssaiavailability ∧
      ∃ answer e', routerDispatch ⟨fun _ => .ok (some scopeNsselection), {}⟩ callbackPost
          (.start (notificationDispatcherNew none)) Env.quiet =
            .ok ((answer, .start (notificationDispatcherNew none)), e') ∧
        routerDispatch ⟨fun _ => .ok (some scopeNsselection), {}⟩ callbackPost
          ⟨.newInmemory, .sampleStore, SubscriptionStore.sampleOutbox⟩ Env.quiet =
            .ok ((answer, ⟨.newInmemory, .sampleStore, SubscriptionStore.sampleOutbox⟩), e') ∧
        answer.status ∈ [401, 403, 404, 405, 414, 500] ∧ e'.effects = Env.quiet.effects := by
  have hscope : callbackPost.scope? = some scopeNssaiavailability := by decide
  refine ⟨hscope, ungranted_request_denied ?_ _ _ _⟩
  intro scope h
  rw [hscope] at h
  cases h
  decide

end Nssf
