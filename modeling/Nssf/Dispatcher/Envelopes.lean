import Nssf.Dispatcher.FailClosed
import Nssf.Runtime.Allocating

/-! Every envelope in the queue is the text of an object, since only the enqueue writes one. The
reading of an envelope therefore never looks into an array, and a dispatch always returns. -/

namespace Nssf

open Base Run

theorem Json.isObject_of_parseObject (value : List Char → Option (Json × List Char))
    {cs rest : List Char} {j : Json} (h : Json.parseObject value cs = some (j, rest)) :
    j.isObject = true := by
  unfold Json.parseObject at h
  split at h
  · cases h
    rfl
  · obtain ⟨r, -, hr⟩ := Option.map_eq_some_iff.1 h
    cases hr
    rfl

/-- What an object is printed as reads back as an object, if it reads back. -/
theorem Json.isObject_of_parseText {ms : List (String × Json)} {j : Json}
    (h : Json.parseText (Json.printText (.object ms)) = some j) : j.isObject = true := by
  unfold Json.parseText at h
  rw [Json.printText_object] at h
  obtain ⟨⟨j', rest⟩, hr, rfl⟩ := Option.map_eq_some_iff.1 h
  exact Json.isObject_of_parseObject (Json.parseValue 999) hr

def IsEnvelope (text : String) : Prop := ∃ ms, text = Json.printText (.object ms)

section envelope

variable {F : Fault → Prop}

theorem gives_addBody (env : Json) (payload : Option String) :
    Gives F (fun j => env.isObject = true → j.isObject = true) (addBody env payload) := by
  cases payload with
  | none => exact gives_pure id
  | some p =>
    refine Gives.bind (gives_parse p) fun o _ => ?_
    cases o with
    | none => exact gives_addStringToObject env "body" p
    | some body => exact gives_addItemToObject env "body" (some body)

theorem gives_envelopeBuild (callbackUri payload correlationId : Option String) :
    Gives F (fun o => ∀ text, o = some text → IsEnvelope text)
      (envelopeBuild callbackUri payload correlationId) := by
  have hnone : Gives F (fun o => ∀ text, o = some text → IsEnvelope text)
      (pure none : Run (Option String)) := by
    refine gives_pure ?_
    intro text h
    cases h
  refine Gives.bind (gives_allocated _) fun o ho => ?_
  rcases ho with rfl | rfl
  · exact hnone
  refine Gives.bind (gives_addOptionalString _ _ _) fun e₁ h₁ => ?_
  refine Gives.bind (gives_addOptionalString _ _ _) fun e₂ h₂ => ?_
  refine Gives.bind (gives_addBody e₂ payload) fun e₃ h₃ => ?_
  refine (gives_allocated (Json.printText e₃)).mono (fun o ho => ?_) fun _ h => h
  have hobj : e₃.isObject = true := h₃ (h₂ (h₁ rfl))
  rcases ho with rfl | rfl
  · intro text h
    cases h
  · intro text h
    cases h
    cases e₃ with
    | object ms => exact ⟨ms, rfl⟩
    | _ => cases hobj

theorem gives_envelopeSplit {text : String} (h : IsEnvelope text) :
    Gives F (fun _ => True) (envelopeSplit text) := by
  obtain ⟨ms, rfl⟩ := h
  refine Gives.bind (gives_parse _) fun o ho => ?_
  cases o with
  | none => exact gives_pure trivial
  | some env =>
    have hobj : env.isObject = true := by
      rcases ho with ho | ho
      · cases ho
      · exact Json.isObject_of_parseText ho.symm
    have hlook := Json.lookable_of_isObject hobj
    have hget (key : String) : Gives F (fun _ => True) (envelopeGetString env key) := by
      unfold envelopeGetString
      rw [Json.getObjectItem_of_lookable hlook, pure_bind]
      split
      · exact (gives_allocated _).mono (fun _ _ => trivial) fun _ h => h
      · exact gives_pure trivial
    have hbody : Gives F (fun _ => True) (envelopeGetBody env) := by
      unfold envelopeGetBody
      rw [Json.getObjectItem_of_lookable hlook, pure_bind]
      split
      · exact (gives_allocated _).mono (fun _ _ => trivial) fun _ h => h
      · exact gives_pure trivial
      · exact (gives_allocated _).mono (fun _ _ => trivial) fun _ h => h
      · exact gives_pure trivial
    refine Gives.bind (hget _) fun cb _ => ?_
    refine Gives.bind (hget _) fun corr _ => ?_
    refine Gives.bind hbody fun body _ => ?_
    cases body with
    | none => exact gives_pure trivial
    | some body =>
      by_cases hempty : body = ""
      · simp only [hempty, if_true]
        exact gives_pure trivial
      · simp only [hempty, if_false]
        refine Gives.bind (gives_parse body) fun o _ => ?_
        cases o with
        | none => exact gives_pure trivial
        | some _ => exact gives_pure trivial

/-- The body that a stored text carries. -/
def storedBody? (text : String) : Option Json :=
  (Json.parseText text).bind fun env => env.member? "body"

/-- The text that a stored body goes out as: a string goes out as it stands. -/
def bodyText? : Json → Option String
  | .string s => some s
  | .null => none
  | j => some j.printText

/-- The body of the parts is that of the stored text, and it can be read. -/
def Carries (text : String) (parts : EnvelopeParts) : Prop :=
  ∃ body, storedBody? text = some body ∧ bodyText? body = some parts.body ∧
    (Json.parseText parts.body).isSome = true

theorem gives_envelopeGetBody (env : Json) :
    Gives (fun _ => True) (fun o => ∀ text, o = some text →
      ∃ body, env.member? "body" = some body ∧ bodyText? body = some text)
      (envelopeGetBody env) := by
  refine Gives.bind (gives_getObjectItem _ _) fun found hfound => ?_
  have hbody := hfound env rfl
  have hnone : Gives (fun _ => True) (fun o => ∀ text, o = some text →
      ∃ body, env.member? "body" = some body ∧ bodyText? body = some text)
      (pure none : Run (Option String)) := by
    refine gives_pure ?_
    intro text h
    cases h
  have hcopy {copy : String} {body : Json} (hmember : env.member? "body" = some body)
      (htext : bodyText? body = some copy) :
      Gives (fun _ => True) (fun o => ∀ text, o = some text →
        ∃ body, env.member? "body" = some body ∧ bodyText? body = some text)
        (allocated copy) := by
    refine (gives_allocated copy).mono (fun o ho => ?_) fun _ h => h
    rcases ho with rfl | rfl
    · intro text h
      cases h
    · intro text h
      cases h
      exact ⟨body, hmember, htext⟩
  cases found with
  | none => exact hnone
  | some body =>
    cases body with
    | string s => exact hcopy hbody.symm rfl
    | null => exact hnone
    | bool b => exact hcopy hbody.symm rfl
    | number d => exact hcopy hbody.symm rfl
    | array xs => exact hcopy hbody.symm rfl
    | object ms => exact hcopy hbody.symm rfl

/-- Whatever the text is, only a body that it carries is handed out. -/
theorem gives_envelopeSplit_parts (text : String) :
    Gives (fun _ => True) (fun o => ∀ parts, o = some parts → Carries text parts)
      (envelopeSplit text) := by
  have hnone : Gives (fun _ => True) (fun o => ∀ parts, o = some parts → Carries text parts)
      (pure none : Run (Option EnvelopeParts)) := by
    refine gives_pure ?_
    intro parts h
    cases h
  have hget (env : Json) (key : String) :
      Gives (fun _ => True) (fun _ => True) (envelopeGetString env key) := by
    refine Gives.bind (gives_getObjectItem _ _) fun found _ => ?_
    split
    · exact (gives_allocated _).mono (fun _ _ => trivial) fun _ h => h
    · exact gives_pure trivial
  refine Gives.bind (gives_parse text) fun o ho => ?_
  cases o with
  | none => exact hnone
  | some env =>
    have henv : Json.parseText text = some env := (ho.resolve_left (by simp)).symm
    refine Gives.bind (hget env _) fun cb _ => ?_
    refine Gives.bind (hget env _) fun corr _ => ?_
    refine Gives.bind (gives_envelopeGetBody env) fun body hbody => ?_
    cases body with
    | none => exact hnone
    | some body =>
      obtain ⟨stored, hmember, htext⟩ := hbody body rfl
      have hstored : storedBody? text = some stored := by
        unfold storedBody?
        rw [henv]
        exact hmember
      dsimp only
      split_ifs
      · exact hnone
      · refine Gives.bind (gives_parse body) fun checked hchecked => ?_
        cases checked with
        | none => exact hnone
        | some j =>
          refine gives_pure ?_
          intro parts h
          cases h
          have hread : Json.parseText body = some j := (hchecked.resolve_left (by simp)).symm
          exact ⟨stored, hstored, htext, by rw [hread]; rfl⟩

end envelope

namespace RetryStore

variable {q q' : RetryStore} {e e' : Env}

def Enveloped (q : RetryStore) : Prop := ∀ row ∈ q.rows, IsEnvelope row.envelope

theorem enveloped_newInmemory : retryStoreNewInmemory.Enveloped := by
  intro row h
  cases h

theorem Enveloped.removeAt (h : q.Enveloped) (i : ℕ) : (q.removeAt i).Enveloped :=
  fun row hrow => h row (List.mem_of_mem_eraseIdx hrow)

theorem Enveloped.updateAt (h : q.Enveloped) (i : ℕ) {f : Row → Row}
    (hf : ∀ row, (f row).envelope = row.envelope) : (q.updateAt i f).Enveloped := by
  intro row hrow
  obtain ⟨j, hj, rfl⟩ := List.mem_iff_getElem.1 hrow
  simp only [RetryStore.updateAt, List.length_modify] at hj
  simp only [RetryStore.updateAt, List.getElem_modify]
  split_ifs with hij
  · rw [hf]
    exact h _ (List.getElem_mem hj)
  · exact h _ (List.getElem_mem hj)

theorem Enveloped.enqueue (hq : q.Enveloped) {sub cb payload corr : Option String} {ok : Bool}
    (h : q.enqueue sub cb payload corr e = .ok ((ok, q'), e')) : q'.Enveloped := by
  rcases enqueue_cases h with ⟨-, rfl⟩ | ⟨-, sub, envelope, now, e₁, hbuild, rfl⟩
  · exact hq
  · have henvelope := ((gives_envelopeBuild (F := fun _ => True) cb payload corr).of_ok hbuild).1
    intro row hrow
    rcases List.mem_append.1 hrow with hrow | hrow
    · exact hq row hrow
    · rw [List.mem_singleton] at hrow
      rw [hrow]
      exact henvelope envelope rfl

theorem ends_enqueue {F : Fault → Prop} (hq : q.Enveloped) (sub cb payload corr : Option String) :
    Ends F (fun r => r.2.Enveloped) (q.enqueue sub cb payload corr) := by
  have hmem (sub payload : String) : Ends F (fun _ => True)
      (q.memEnqueue sub cb (some payload) corr) := by
    refine Ends.bind (gives_envelopeBuild _ _ _).ends fun envelope _ => ?_
    refine Ends.bind (gives_allocated sub).ends fun copy hcopy => ?_
    cases envelope with
    | none => exact ends_pure trivial
    | some envelope =>
      rcases hcopy with rfl | rfl
      · exact ends_pure trivial
      · refine Ends.bind gives_alloc.ends fun b _ => ?_
        cases b with
        | false => exact ends_pure trivial
        | true =>
          exact Ends.bind (emitting_clockMs (P := fun _ => True)).ends fun _ _ =>
            ends_pure trivial
  have hany : Ends F (fun _ => True) (q.enqueue sub cb payload corr) := by
    unfold RetryStore.enqueue
    split
    · split_ifs with hu
      · exact hmem _ _
      · exact ends_pure trivial
    · exact ends_pure trivial
  refine (hany.and (ends_of_ok fun e e' r h => ?_)).mono fun r h => h.2
  exact hq.enqueue h

theorem gives_claimRow {F : Fault → Prop} {row : Row} (hrow : IsEnvelope row.envelope) (i : ℕ) :
    Gives F (fun _ => True) (q.claimRow row i) := by
  refine Gives.bind (gives_allocated _) fun id hid => ?_
  refine Gives.bind (gives_allocated _) fun sub hsub => ?_
  rcases hid with rfl | rfl
  · exact gives_pure trivial
  rcases hsub with rfl | rfl
  · exact gives_pure trivial
  refine Gives.bind (gives_envelopeSplit hrow) fun parts _ => ?_
  cases parts with
  | none => exact gives_pure trivial
  | some parts => exact gives_pure trivial

/-- A claimed row is handed out with a body that its envelope carries. -/
theorem gives_claimRow_item (row : Row) (i : ℕ) :
    Gives (fun _ => True) (fun r => ∀ item, r.1 = .claimed item →
      item.id = row.id ∧ item.subscriptionId = row.subscriptionId ∧
        ∃ parts, Carries row.envelope parts ∧ item.payloadJson = parts.body)
      (q.claimRow row i) := by
  refine Gives.bind (gives_allocated _) fun id hid => ?_
  refine Gives.bind (gives_allocated _) fun sub hsub => ?_
  cases id with
  | none => exact gives_pure (by simp)
  | some id =>
    cases sub with
    | none => exact gives_pure (by simp)
    | some sub =>
      refine Gives.bind (gives_envelopeSplit_parts _) fun parts hparts => ?_
      cases parts with
      | none => exact gives_pure (by simp)
      | some parts =>
        refine gives_pure ?_
        intro item h
        cases h
        exact ⟨by simpa using hid, by simpa using hsub, parts, hparts parts rfl, rfl⟩

/-- What a dequeue claims is a due row, with the body that its envelope carries. -/
theorem memDequeue_item {item : RetryItem}
    (h : q.memDequeue e = .ok ((.claimed item, q'), e')) :
    ∃ now, ∃ row ∈ q.rows, due now row = true ∧ item.id = row.id ∧
      item.subscriptionId = row.subscriptionId ∧
      ∃ parts, Carries row.envelope parts ∧ item.payloadJson = parts.body := by
  unfold RetryStore.memDequeue at h
  obtain ⟨now, e₁, -, h⟩ := Prog.bind_eq_ok.1 h
  cases hpick : q.pickDue now with
  | none =>
    rw [hpick] at h
    cases h
  | some p =>
    rw [hpick] at h
    obtain ⟨row, i⟩ := p
    obtain ⟨hrow, hdue⟩ := pickDue_spec hpick
    exact ⟨now, row, List.mem_of_getElem? hrow, hdue,
      ((gives_claimRow_item row i).of_ok h).1 item rfl⟩

theorem ends_memDequeue {F : Fault → Prop} (hq : q.Enveloped) :
    Ends F (fun _ => True) q.memDequeue := by
  refine Ends.bind (emitting_clockMs (P := fun _ => True)).ends fun now _ => ?_
  cases hp : q.pickDue now with
  | none => exact ends_pure trivial
  | some p =>
    have hrow := hq p.1 (List.mem_of_getElem? (pickDue_spec hp).1)
    exact (gives_claimRow hrow p.2).ends

theorem Enveloped.memDequeue (hq : q.Enveloped) {got : Dequeued}
    (h : q.memDequeue e = .ok ((got, q'), e')) : q'.Enveloped := by
  rcases memDequeue_cases h with ⟨-, rfl⟩ | ⟨-, rfl⟩ | ⟨now, row, i, -, -, hc⟩
  · exact hq
  · exact hq
  · rcases hc with ⟨-, rfl⟩ | ⟨item, -, -, -, rfl⟩
    · exact hq.removeAt i
    · exact hq.updateAt i fun _ => rfl

theorem Enveloped.resolve (hq : q.Enveloped) {id : ℕ} {op : StoreOp}
    (h : q.resolve id op e = .ok (q', e')) : q'.Enveloped := by
  cases op with
  | complete =>
    cases h
    unfold memComplete
    split
    · exact hq
    · exact hq.removeAt _
  | deadLetter =>
    cases h
    unfold memDeadLetter
    split
    · exact hq
    · exact hq.updateAt _ fun _ => rfl
  | requeue =>
    change q.memRequeue id e = _ at h
    unfold memRequeue at h
    cases hi : q.indexOf id with
    | none =>
      rw [hi] at h
      cases h
      exact hq
    | some i =>
      rw [hi] at h
      obtain ⟨u, e₁, -, h⟩ := Prog.bind_eq_ok.1 h
      obtain ⟨now, e₂, -, h⟩ := Prog.bind_eq_ok.1 h
      cases h
      exact hq.updateAt i fun _ => rfl

theorem Enveloped.dispatchItem (hq : q.Enveloped) {d d' : Dispatcher} {item : RetryItem}
    {inbound : Option String} {result : DispatchResult}
    (h : dispatchItem d q item inbound e = .ok ((result, d', q'), e')) : q'.Enveloped := by
  have hresolve {d₁ : Dispatcher} {op : StoreOp} {res : DispatchResult} {e₁ : Env}
      (h : (q.resolve item.id op >>= fun q => pure (res, d₁, q)) e₁ = .ok ((result, d', q'), e')) :
      q'.Enveloped := by
    obtain ⟨q₁, e₂, hr, h⟩ := Prog.bind_eq_ok.1 h
    cases h
    exact hq.resolve hr
  unfold Nssf.dispatchItem at h
  split_ifs at h with hadm
  · obtain ⟨⟨built, d₁⟩, e₁, -, h⟩ := Prog.bind_eq_ok.1 h
    cases built with
    | abort => exact hresolve h
    | failed => exact hresolve h
    | ok headers =>
      obtain ⟨x, e₂, -, h⟩ := Prog.bind_eq_ok.1 h
      exact hresolve h
  · exact hresolve h

theorem Enveloped.dispatchPending (hq : q.Enveloped) {d d' : Dispatcher}
    {inbound : Option String} {result : DispatchResult}
    (h : dispatchPending d q inbound e = .ok ((result, d', q'), e')) : q'.Enveloped := by
  obtain ⟨⟨got, q₁⟩, e₁, hdq, h⟩ := Prog.bind_eq_ok.1 h
  have hq₁ := hq.memDequeue hdq
  cases got with
  | none =>
    cases h
    exact hq₁
  | error =>
    cases h
    exact hq₁
  | claimed item => exact hq₁.dispatchItem h

/-- With envelopes in the queue a dispatch always returns. -/
theorem ends_dispatchPending {F : Fault → Prop} (hq : q.Enveloped) (d : Dispatcher)
    (inbound : Option String) : Ends F (fun _ => True) (Nssf.dispatchPending d q inbound) := by
  refine Ends.bind (ends_memDequeue hq) fun got _ => ?_
  obtain ⟨got, q₁⟩ := got
  cases got with
  | none => exact ends_pure trivial
  | error => exact ends_pure trivial
  | claimed item => exact (dispatchItem_emitting d q₁ item inbound).ends

end RetryStore

end Nssf
