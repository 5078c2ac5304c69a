import Nssf.Base.Transition
import Nssf.Selection.Lookups
import Nssf.Server.Requests
import Nssf.Subscription.PatchWrites

/-! The lookups of a run. Most handlers look into values they have found to be objects; the post
looks into its document and its filter, the patch into its operations, the selection into the
elements of its query, and the fan-out into every filter that is stored. Requests that are
shaped so that these hold up keep the stored filters searchable, and no lookup of the run meets
a non-empty array. -/

namespace Nssf

open Base Run Subscription

/-- The operation can be looked into and does not leave a filter that cannot. -/
def OpShaped (tree op : Json) : Prop :=
  op.Lookable ∧ ¬Writes "filter" (fun v => ¬v.Lookable) tree op

/-- What the request brings can be looked into wherever a handler does so, and the filter it
stores as well. -/
structure WellShaped (validate : BearerValidator) (req : Request) (s : Stores) : Prop where
  posted : ∀ doc, req.Posts validate doc →
    doc.Lookable ∧ ∀ cb, PostedCallback doc cb → (postedFilter doc).Lookable
  patched : ∀ id doc, req.Patches validate id doc →
    s.subscriptions.PatchReach OpShaped id req.contentType doc
  queried : ∀ query, req.Queries validate query → QueryShaped query

theorem SubscriptionRecord.Searchable.free {x : SubscriptionRecord} (h : x.Searchable)
    {tree : Json} {e e' : Env} (hrun : buildResource x e = .ok (some tree, e')) :
    tree.Free "filter" fun v => ¬v.Lookable := by
  refine free_buildResource (fun hk => ?_) (fun _ v hv => ?_) (fun hk => ?_) hrun
  · exact absurd hk (by decide)
  · intro hbad
    exact hbad (h v hv)
  · exact absurd hk (by decide)

section step

variable {validate : BearerValidator} {req : Request} {s : Stores}

theorem ends_patch_searchable {store : SubscriptionStore}
    (hs : store.AllLive SubscriptionRecord.Searchable) {id : String}
    {contentType : Option String} {doc : Json}
    (hpatch : store.PatchReach OpShaped id contentType doc) :
    Ends OtherFault (fun r => r.2.AllLive SubscriptionRecord.Searchable)
      (store.patch (some id) contentType (some doc)) := by
  have hobj : ∀ ms, ¬¬(Json.object ms).Lookable := fun ms h => h (Json.lookable_object ms)
  have hkept : Ends (fun _ => True) (fun r => r.2.AllLive SubscriptionRecord.Searchable)
      (store.patch (some id) contentType (some doc)) := by
    refine ends_of_ok fun e e' r h => ?_
    rcases hpatch.commits hobj (fun _ _ h => h.2) (fun i x tree e e' hlive hbuild =>
        (SubscriptionStore.allLive_of_live? hs hlive).free hbuild) h with
      heq | ⟨i, x, tree, fields, -, hfree, hfields, heq⟩
    · rw [heq]
      exact hs
    · rw [heq]
      refine hs.set i ?_
      intro filter hfilter
      cases hfilter
      exact not_not.1 (hfree.member? hfields.2.1)
  exact ((hpatch.ends fun _ _ h => h.1).and hkept).mono fun r h => h.2

/-- A request of that shape keeps the filters searchable and is not stopped by a lookup. -/
theorem ends_routerDispatch_searchable (hs : s.Sound SubscriptionRecord.Searchable)
    (hreq : WellShaped validate req s) :
    Ends OtherFault (fun r => r.2.Sound SubscriptionRecord.Searchable)
      (routerDispatch ⟨validate, mainSeams⟩ req s) := by
  have hF : OtherFault .outOfBounds := otherFault_of_outOfBounds rfl
  refine ends_routerDispatch hF (fun _ hx => Or.inr hx) hs (fun doc hd => ?_)
    (fun id doc hd => ends_patch_searchable hs.1 (hreq.patched id doc hd)) fun query hq => ?_
  · obtain ⟨hdoc, hfilter⟩ := hreq.posted doc hd
    refine ends_postDocument hF hs (Or.inr hdoc) (fun cb hcb => Or.inr (hfilter cb hcb)) ?_
    intro cb x hcb _ hx filter hf
    rw [hx] at hf
    cases hf
    exact hfilter cb hcb
  · obtain ⟨-, -, e, e', hbuild⟩ := id hq
    have hobj := ((gives_buildEngineQuery (F := fun _ => True) _).of_ok hbuild).1 query rfl
    exact (gives_select hobj (hreq.queried query hq) s.repo).ends

end step

/-- Requests of that shape served one after the other, by whatever validator. -/
def ShapedStep (s s' : Stores) : Prop :=
  ∃ validate req, WellShaped validate req s ∧ Serves ⟨validate, mainSeams⟩ req s s'

theorem runs_searchable {dispatcher : Dispatcher} {s : Stores}
    (hr : Runs ShapedStep (Stores.start dispatcher) s) :
    s.Sound SubscriptionRecord.Searchable := by
  refine hr.invariant (Stores.sound_start _ dispatcher) fun s s' hs hstep => ?_
  obtain ⟨validate, req, hreq, hserve⟩ := hstep
  exact hserve.sound (ends_routerDispatch_searchable hs hreq)

theorem runs_lookups_hold {dispatcher : Dispatcher} {s : Stores}
    (hr : Runs ShapedStep (Stores.start dispatcher) s) {validate : BearerValidator}
    {req : Request} (hreq : WellShaped validate req s) (e : Env) :
    routerDispatch ⟨validate, mainSeams⟩ req s e ≠ .error .nullName := by
  intro h
  exact (ends_routerDispatch_searchable (runs_searchable hr) hreq e).2 _ h rfl

theorem wellShaped_callbackPost (s : Stores) : WellShaped openDeps.validate callbackPost s := by
  have hdoc : callbackPost.document? =
      some (.object [("callbackUri", .string "https://amf/cb")]) := by
    decide +kernel
  have hmethod {m : String} {resource : Resource} (h : callbackPost.Targets m resource) :
      m = "POST" := by
    obtain ⟨path, -, hmethod, -⟩ := h
    exact (Option.some.inj hmethod).symm
  refine ⟨fun doc hd => ?_, fun id doc hd => ?_, fun query hq => ?_⟩
  · have hsame := hdoc.symm.trans hd.2.2.2.2
    cases hsame
    exact ⟨trivial, fun _ _ => trivial⟩
  · exact absurd (hmethod hd.1) (by decide)
  · exact absurd (hmethod hq.1) (by decide)

/-- The same post a second time, after the first one was stored. -/
theorem runs_lookups_hold_twice :
    ∃ s, Runs ShapedStep (.start (notificationDispatcherNew none)) s ∧
      s.subscriptions.items.length = 1 ∧
      routerDispatch ⟨openDeps.validate, mainSeams⟩ callbackPost s Env.quiet ≠
        .error .nullName := by
  have hres : (Prog.result? (routerDispatch ⟨openDeps.validate, mainSeams⟩ callbackPost
      (.start (notificationDispatcherNew none))) Env.quiet).map
        (fun r => r.2.subscriptions.items.length) = some 1 := by
    decide +kernel
  obtain ⟨⟨answer, s⟩, hs, hlen⟩ := Option.map_eq_some_iff.1 hres
  obtain ⟨e', hserve⟩ := Prog.exists_of_result? hs
  have hr : Runs ShapedStep (.start (notificationDispatcherNew none)) s :=
    .single ⟨_, _, wellShaped_callbackPost _, _, _, _, hserve⟩
  exact ⟨s, hr, hlen, runs_lookups_hold hr (wellShaped_callbackPost s) Env.quiet⟩

def arrayPost : Request :=
  sampleRequest "POST" "/nssai-availability/subscriptions" jsonContentType "[1]"

/-- The post looks for its callback in the array that its body is. -/
theorem lookups_do_not_hold :
    ¬∀ s, Runs (fun s s' => ∃ validate req, Serves ⟨validate, mainSeams⟩ req s s')
        (.start (notificationDispatcherNew none)) s → ∀ validate req e,
      routerDispatch ⟨validate, mainSeams⟩ req s e ≠ .error .nullName := by
  intro hall
  have hfault : Prog.fault? (routerDispatch ⟨openDeps.validate, mainSeams⟩ arrayPost
      (.start (notificationDispatcherNew none))) Env.quiet = some .nullName := by
    decide +kernel
  exact hall _ .refl _ _ _ (Prog.error_of_fault? hfault)

end Nssf
