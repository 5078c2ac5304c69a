import Nssf.Base.Transition
import Nssf.Server.Requests
import Nssf.Subscription.PatchWrites

/-! The callbacks that a run leaves in the store. The post asks the policy before it stores a
callback, the patch does not: the policy holds along a run as long as no operation of a patch
writes a refused text to the callback. -/

namespace Nssf

open Base Run Subscription

/-- A text that the policy for callbacks refuses. -/
def RefusedCallback (v : Json) : Prop :=
  ∃ cb, v = .string cb ∧ notificationCallbackUrlAllowed (some cb) = false

namespace SubscriptionRecord

def Deliverable (x : SubscriptionRecord) : Prop :=
  notificationCallbackUrlAllowed x.callbackUri = true

/-- The first tree of a patch has the callback of the record. -/
theorem Deliverable.free {x : SubscriptionRecord} (h : x.Deliverable) {tree : Json} {e e' : Env}
    (hrun : buildResource x e = .ok (some tree, e')) :
    tree.Free "callbackUri" RefusedCallback := by
  refine free_buildResource (fun _ text htext => ?_) (fun hk => ?_) (fun hk => ?_) hrun
  · intro hbad
    obtain ⟨cb, hcb, hrefused⟩ := hbad
    cases hcb
    unfold Deliverable at h
    rw [htext, hrefused] at h
    cases h
  · exact absurd hk (by decide)
  · exact absurd hk (by decide)

end SubscriptionRecord

/-- No operation that a patch of the request reaches writes a refused text to the callback. -/
def KeepsPolicy (validate : BearerValidator) (req : Request) (s : Stores) : Prop :=
  ∀ id doc, req.Patches validate id doc → s.subscriptions.PatchReach
    (fun tree op => ¬Writes "callbackUri" RefusedCallback tree op) id req.contentType doc

section step

variable {deps : RouterDeps} {req : Request} {s s' : Stores}

theorem allLive_patch {store store' : SubscriptionStore}
    (hs : store.AllLive SubscriptionRecord.Deliverable) {id : String}
    {contentType : Option String} {doc : Json}
    (hpatch : store.PatchReach (fun tree op => ¬Writes "callbackUri" RefusedCallback tree op) id
      contentType doc) {e e' : Env} {code : SubResult}
    (h : store.patch (some id) contentType (some doc) e = .ok ((code, store'), e')) :
    store'.AllLive SubscriptionRecord.Deliverable := by
  have hobj : ∀ ms, ¬RefusedCallback (.object ms) := by
    intro ms hbad
    obtain ⟨cb, hcb, -⟩ := hbad
    cases hcb
  rcases hpatch.commits hobj (fun _ _ h => h) (fun i x tree e e' hlive hbuild =>
      (SubscriptionStore.allLive_of_live? hs hlive).free hbuild) h with
    rfl | ⟨i, x, tree, fields, -, hfree, hfields, rfl⟩
  · exact hs
  · refine hs.set i ?_
    have hgood := hfree.member? hfields.1
    by_contra hrefused
    exact hgood ⟨fields.callbackUri, rfl, Bool.eq_false_iff.2 hrefused⟩

theorem served_deliverable (hs : s.Sound SubscriptionRecord.Deliverable)
    (hreq : KeepsPolicy deps.validate req s) (h : Serves deps req s s') :
    s'.Sound SubscriptionRecord.Deliverable := by
  have hrun : Ends (fun _ => True) (fun r => r.2.Sound SubscriptionRecord.Deliverable)
      (routerDispatch deps req s) := by
    refine ends_routerDispatch trivial (fun _ _ => Or.inl trivial) hs (fun doc _ => ?_)
      (fun id doc hd => ?_) fun query _ => ends_of_ok fun _ _ _ _ => trivial
    · refine ends_postDocument trivial hs (Or.inl trivial) (fun _ _ => Or.inl trivial) ?_
      intro cb x hposted hcb _
      unfold SubscriptionRecord.Deliverable
      rw [hcb]
      exact hposted.2
    · exact ends_of_ok fun e e' r hr => allLive_patch hs.1 (hreq id doc hd) hr
  exact h.sound hrun

end step

/-- Requests served one after the other, by whatever validator and seams, whose patches keep to
the policy. -/
def PolicyStep (s s' : Stores) : Prop :=
  ∃ deps req, KeepsPolicy deps.validate req s ∧ Serves deps req s s'

theorem runs_deliverable {dispatcher : Dispatcher} {s : Stores}
    (hr : Runs PolicyStep (Stores.start dispatcher) s) :
    s.subscriptions.AllLive SubscriptionRecord.Deliverable := by
  have hsound : s.Sound SubscriptionRecord.Deliverable := by
    refine hr.invariant (Stores.sound_start _ dispatcher) fun s s' hs hstep => ?_
    obtain ⟨deps, req, hreq, hserve⟩ := hstep
    exact served_deliverable hs hreq hserve
  exact hsound.1

section samples

def callbackOp (uri : String) : Json :=
  .object [("op", .string "replace"), ("path", .string "/callbackUri"), ("value", .string uri)]

/-- The patch of the subscription that the first post of a run creates. -/
def callbackPatch (uri : String) : Request :=
  sampleRequest "PATCH" (subscriptionPrefix ++ uuidText 1 0)
    SubscriptionStore.jsonPatchContentType (Json.printText (.array [callbackOp uri]))

def postThenPatch (uri : String) : Run Stores := do
  let (_, posted) ← routerDispatch openDeps callbackPost
    (.start (notificationDispatcherNew none))
  let (_, patched) ← routerDispatch openDeps (callbackPatch uri) posted
  return patched

/-- What is in the store after a post and a patch, both served. -/
theorem served_postThenPatch {α : Type} {uri : String} {read : SubscriptionRecord → α}
    {found : List α} (h : (Prog.result? (postThenPatch uri) Env.quiet).map
      (fun s => s.subscriptions.items.map read) = some found) :
    ∃ posted patched,
      Serves openDeps callbackPost (.start (notificationDispatcherNew none)) posted ∧
      Serves openDeps (callbackPatch uri) posted patched ∧
      patched.subscriptions.items.map read = found := by
  obtain ⟨s, hs, hfound⟩ := Option.map_eq_some_iff.1 h
  obtain ⟨e', hrun⟩ := Prog.exists_of_result? hs
  obtain ⟨⟨answer, posted⟩, e₁, hpost, hrun⟩ := Prog.bind_eq_ok.1 hrun
  obtain ⟨⟨answer', patched⟩, e₂, hpatch, hrun⟩ := Prog.bind_eq_ok.1 hrun
  cases hrun
  exact ⟨posted, _, ⟨_, _, _, hpost⟩, ⟨_, _, _, hpatch⟩, hfound⟩

theorem keepsPolicy_callbackPost (s : Stores) :
    KeepsPolicy openDeps.validate callbackPost s := by
  intro id doc hd
  obtain ⟨⟨path, -, hmethod, -⟩, -⟩ := hd
  simp [callbackPost, sampleRequest] at hmethod

theorem not_writes_callbackOp {uri : String} (h : notificationCallbackUrlAllowed (some uri) = true)
    (tree : Json) : ¬Writes "callbackUri" RefusedCallback tree (callbackOp uri) := by
  intro hw
  obtain ⟨pointer, v, -, -, hv, cb, hcb, hrefused⟩ := hw
  have hvalue : writtenValue tree (callbackOp uri) = some (.string uri) := by
    simp [writtenValue, callbackOp, Json.member?, Json.findMember]
  rw [hvalue, hcb] at hv
  cases hv
  rw [h] at hrefused
  cases hrefused

end samples

/-- A run of a post and of a patch to another callback that the policy accepts. -/
theorem runs_deliverable_patched : ∃ s,
    Runs PolicyStep (.start (notificationDispatcherNew none)) s ∧
    s.subscriptions.items.map (·.callbackUri) = [some "https://amf/other"] ∧
    s.subscriptions.AllLive SubscriptionRecord.Deliverable := by
  have hres : (Prog.result? (postThenPatch "https://amf/other") Env.quiet).map
      (fun s => s.subscriptions.items.map (·.callbackUri)) = some [some "https://amf/other"] := by
    decide +kernel
  obtain ⟨posted, patched, hpost, hpatch, hcbs⟩ := served_postThenPatch hres
  have hdoc : (callbackPatch "https://amf/other").document? =
      some (.array [callbackOp "https://amf/other"]) := by
    decide +kernel
  have hkeeps : KeepsPolicy openDeps.validate (callbackPatch "https://amf/other") posted := by
    intro id doc hd ops i x tree e e' hops _ _ _
    have hsame := hdoc.symm.trans hd.2.2.2
    cases hsame
    cases hops
    exact ⟨not_writes_callbackOp (by decide +kernel) tree, fun _ _ _ _ => trivial⟩
  have hr : Runs PolicyStep (.start (notificationDispatcherNew none)) patched :=
    (Relation.ReflTransGen.single ⟨_, _, keepsPolicy_callbackPost _, hpost⟩).tail
      ⟨_, _, hkeeps, hpatch⟩
  exact ⟨patched, hr, hcbs, runs_deliverable hr⟩

/-- The patch replaces the callback by one with plain `http`. -/
theorem runs_not_deliverable :
    ¬∀ s, Runs (fun s s' => ∃ deps req, Serves deps req s s')
        (.start (notificationDispatcherNew none)) s →
      s.subscriptions.AllLive SubscriptionRecord.Deliverable := by
  intro hall
  have hres : (Prog.result? (postThenPatch "http://x") Env.quiet).map
      (fun s => s.subscriptions.items.map (fun x => (x.callbackUri, x.tombstone))) =
        some [(some "http://x", false)] := by
    decide +kernel
  obtain ⟨posted, patched, hpost, hpatch, hcbs⟩ := served_postThenPatch hres
  have hlive := hall patched
    ((Relation.ReflTransGen.single ⟨_, _, hpost⟩).tail ⟨_, _, hpatch⟩)
  cases hitems : patched.subscriptions.items with
  | nil =>
    rw [hitems] at hcbs
    cases hcbs
  | cons x xs =>
    rw [hitems, List.map_cons] at hcbs
    obtain ⟨hx, -⟩ := List.cons.inj hcbs
    obtain ⟨hcb, ht⟩ := Prod.mk.inj hx
    have hallowed : notificationCallbackUrlAllowed x.callbackUri = true :=
      hlive x (by rw [hitems]; exact List.mem_cons_self) ht
    rw [hcb] at hallowed
    revert hallowed
    decide

end Nssf
