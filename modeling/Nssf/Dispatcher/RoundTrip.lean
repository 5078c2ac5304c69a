import Nssf.Dispatcher.Envelopes
import Nssf.Json.Exact

/-! What comes back out of an envelope. A body that was stored as a tree is printed again, and a
tree that is a string goes out as its content. -/

namespace Nssf

open Base JsonText Run

section building

def storedMember (name : String) (value : Option String) : List (String × Json) :=
  value.toList.map fun s => (name, .string s)

/-- A payload that is not read is kept as a string. -/
def storedBody (payload : String) : Json := (Json.parseText payload).getD (.string payload)

def envelopeMembers (callbackUri correlationId : Option String) (body : Json) :
    List (String × Json) :=
  storedMember "callbackUri" callbackUri ++
    (storedMember "correlationId" correlationId ++ [("body", body)])

theorem yields_addOptionalString (members : List (String × Json)) (name : String)
    (value : Option String) : Yields (addOptionalString (.object members) name value)
      (.object (members ++ storedMember name value)) := by
  cases value with
  | none =>
    have hsame : members ++ storedMember name none = members := List.append_nil _
    rw [hsame]
    exact yields_pure _
  | some s => exact Yields.bind yields_alloc (yields_pure _)

theorem yields_addBody (members : List (String × Json)) (payload : String) :
    Yields (addBody (.object members) (some payload))
      (.object (members ++ [("body", storedBody payload)])) := by
  refine Yields.bind (yields_parse payload) ?_
  unfold storedBody
  cases Json.parseText payload with
  | none => exact Yields.bind yields_alloc (yields_pure _)
  | some body => exact Yields.bind yields_alloc (yields_pure _)

theorem yields_envelopeBuild (callbackUri correlationId : Option String) (payload : String) :
    Yields (envelopeBuild callbackUri (some payload) correlationId)
      (some (Json.printText
        (.object (envelopeMembers callbackUri correlationId (storedBody payload))))) := by
  refine Yields.bind (yields_allocated (Json.object [])) ?_
  refine Yields.bind (yields_addOptionalString [] "callbackUri" callbackUri) ?_
  refine Yields.bind (yields_addOptionalString _ "correlationId" correlationId) ?_
  refine Yields.bind (yields_addBody _ payload) ?_
  rw [List.nil_append, List.append_assoc]
  exact yields_allocated _

end building

section splitting

variable {ms : List (String × Json)} {text : String}

theorem yields_envelopeGetString (ms : List (String × Json)) (key : String) :
    Yields (envelopeGetString (.object ms) key)
      ((Json.findMember ms key).bind Json.string?) := by
  have hmember : (Json.object ms).member? key = Json.findMember ms key := rfl
  unfold envelopeGetString
  rw [Json.getObjectItem_of_lookable (Json.lookable_object ms), pure_bind, hmember]
  cases Json.findMember ms key with
  | none => exact yields_pure none
  | some j =>
    cases j with
    | string s => exact yields_allocated s
    | _ => exact yields_pure none

theorem yields_envelopeGetBody (ms : List (String × Json)) :
    Yields (envelopeGetBody (.object ms)) ((Json.findMember ms "body").bind bodyText?) := by
  have hmember : (Json.object ms).member? "body" = Json.findMember ms "body" := rfl
  unfold envelopeGetBody
  rw [Json.getObjectItem_of_lookable (Json.lookable_object ms), pure_bind, hmember]
  cases Json.findMember ms "body" with
  | none => exact yields_pure none
  | some j =>
    cases j with
    | null => exact yields_pure none
    | _ => exact yields_allocated _

/-- What the members of an envelope are split into. -/
def partsOf (ms : List (String × Json)) : Option EnvelopeParts :=
  ((Json.findMember ms "body").bind bodyText?).bind fun body =>
    if body = "" then none
    else (Json.parseText body).map fun _ =>
      ⟨(Json.findMember ms "callbackUri").bind Json.string?,
        (Json.findMember ms "correlationId").bind Json.string?, body⟩

theorem yields_envelopeSplit (h : Json.parseText text = some (.object ms)) :
    Yields (envelopeSplit text) (partsOf ms) := by
  refine Yields.bind (yields_parse text) ?_
  rw [h]
  refine Yields.bind (yields_envelopeGetString ms "callbackUri") ?_
  refine Yields.bind (yields_envelopeGetString ms "correlationId") ?_
  refine Yields.bind (yields_envelopeGetBody ms) ?_
  unfold partsOf
  cases (Json.findMember ms "body").bind bodyText? with
  | none => exact yields_pure none
  | some body =>
    dsimp only [Option.bind_some]
    split_ifs with hempty
    · exact yields_pure none
    · refine Yields.bind (yields_parse body) ?_
      cases Json.parseText body with
      | none => exact yields_pure none
      | some _ => exact yields_pure _

end splitting

section trip

variable {callbackUri correlationId : Option String} {body : Json}

theorem findMember_callbackUri : Json.findMember
    (envelopeMembers callbackUri correlationId body) "callbackUri" =
      callbackUri.map Json.string := by
  cases callbackUri <;> cases correlationId <;>
    simp [envelopeMembers, storedMember, Json.findMember]

theorem findMember_correlationId : Json.findMember
    (envelopeMembers callbackUri correlationId body) "correlationId" =
      correlationId.map Json.string := by
  cases callbackUri <;> cases correlationId <;>
    simp [envelopeMembers, storedMember, Json.findMember]

theorem findMember_body :
    Json.findMember (envelopeMembers callbackUri correlationId body) "body" = some body := by
  cases callbackUri <;> cases correlationId <;>
    simp [envelopeMembers, storedMember, Json.findMember]

theorem bind_string? (value : Option String) :
    (value.map Json.string).bind Json.string? = value := by
  cases value <;> rfl

theorem partsOf_of_body {ms : List (String × Json)} {text : String}
    (hbody : Json.findMember ms "body" = some body) (htext : bodyText? body = some text)
    (hread : (Json.parseText text).isSome = true) :
    partsOf ms = some ⟨(Json.findMember ms "callbackUri").bind Json.string?,
      (Json.findMember ms "correlationId").bind Json.string?, text⟩ := by
  obtain ⟨j, hj⟩ := Option.isSome_iff_exists.1 hread
  have hne : text ≠ "" := by
    rintro rfl
    have hempty : Json.parseText "" = none := by decide
    rw [hempty] at hj
    cases hj
  rw [partsOf, hbody, Option.bind_some, htext, Option.bind_some, if_neg hne, hj, Option.map_some]

theorem partsOf_envelope {text : String} (htext : bodyText? body = some text)
    (hread : (Json.parseText text).isSome = true) :
    partsOf (envelopeMembers callbackUri correlationId body) =
      some ⟨callbackUri, correlationId, text⟩ := by
  rw [partsOf_of_body findMember_body htext hread, findMember_callbackUri,
    findMember_correlationId, bind_string?, bind_string?]

theorem partsOf_envelope_null :
    partsOf (envelopeMembers callbackUri correlationId .null) = none := by
  rw [partsOf, findMember_body]
  rfl

/-- The members of an envelope are read back as they were, up to numbers that are not finite. -/
theorem parseText_envelope (hcallback : ∀ s ∈ callbackUri, Json.NulFree s)
    (hcorrelation : ∀ s ∈ correlationId, Json.NulFree s)
    (hbody : Json.AllStrings Json.NulFree body) (hdepth : body.depth < Json.nestingLimit) :
    Json.parseText (Json.printText (.object (envelopeMembers callbackUri correlationId body))) =
      some (.object (envelopeMembers callbackUri correlationId (Json.written body))) := by
  have hname {name : String} (h : Json.isWord name.toList = true) : Json.NulFree name :=
    (Json.proper_word h).1
  have hnul : Json.AllStrings Json.NulFree
      (.object (envelopeMembers callbackUri correlationId body)) := by
    have hlast : Json.AllMembers Json.NulFree [("body", body)] :=
      ⟨hname rfl, hbody, trivial⟩
    cases callbackUri with
    | none =>
      cases correlationId with
      | none => exact hlast
      | some s => exact ⟨hname rfl, hcorrelation s rfl, hlast⟩
    | some r =>
      cases correlationId with
      | none => exact ⟨hname rfl, hcallback r rfl, hlast⟩
      | some s =>
        exact ⟨hname rfl, hcallback r rfl, hname rfl, hcorrelation s rfl, hlast⟩
  have hdeep : (Json.object (envelopeMembers callbackUri correlationId body)).depth =
      body.depth + 1 := by
    cases callbackUri <;> cases correlationId <;>
      simp [envelopeMembers, storedMember, Json.depth, Json.depthMembers]
  have hwritten : Json.written (.object (envelopeMembers callbackUri correlationId body)) =
      .object (envelopeMembers callbackUri correlationId (Json.written body)) := by
    cases callbackUri <;> cases correlationId <;> rfl
  rw [Json.parseText_printText hnul (by omega), hwritten]

theorem bodyText?_of_composite {j : Json} (hnull : j ≠ .null) (hstring : ∀ s, j ≠ .string s) :
    bodyText? j = some j.printText := by
  cases j with
  | null => exact absurd rfl hnull
  | string s => exact absurd rfl (hstring s)
  | _ => rfl

end trip

section payload

variable {t : Tree} {payload : String} {callbackUri correlationId : Option String}

/-- Building stores the tree that the payload spells. -/
theorem yields_build_tree (ht : Json.TreeOf t payload) (hlimits : Json.Tree.WithinLimits t) :
    Yields (envelopeBuild callbackUri (some payload) correlationId) (some (Json.printText
      (.object (envelopeMembers callbackUri correlationId (Json.Tree.node t))))) := by
  obtain ⟨-, w, w', hs⟩ := ht
  have hread := (Json.parseText_eq_node_iff hs).2 hlimits
  have hbuild := yields_envelopeBuild callbackUri correlationId payload
  rwa [storedBody, hread, Option.getD_some] at hbuild

theorem yields_split_tree (hexact : t.AllNumerals Json.PrintsExactly)
    (hclean : t.AllStrings Json.cleanString) (hdepth : t.depth < Json.nestingLimit)
    (hcallback : ∀ s ∈ callbackUri, Json.NulFree s)
    (hcorrelation : ∀ s ∈ correlationId, Json.NulFree s) :
    Yields (envelopeSplit (Json.printText
      (.object (envelopeMembers callbackUri correlationId (Json.Tree.node t)))))
      (partsOf (envelopeMembers callbackUri correlationId (Json.Tree.node t))) := by
  have hread := parseText_envelope hcallback hcorrelation (Json.nulFree_node hclean)
    ((Json.depth_node t).symm ▸ hdepth)
  rw [Json.written_node hexact] at hread
  exact yields_envelopeSplit hread

/-- A payload that is no string comes back with its value. The text `null` is kept as a tree, but
does not go out as a body. -/
theorem envelope_roundTrip (ht : Json.TreeOf t payload)
    (hexact : t.AllNumerals Json.PrintsExactly) (hlimits : Json.Tree.WithinLimits t)
    (hdepth : t.depth < Json.nestingLimit) (hstring : ∀ ps, t ≠ .string ps)
    (hcallback : ∀ s ∈ callbackUri, Json.NulFree s)
    (hcorrelation : ∀ s ∈ correlationId, Json.NulFree s) :
    ∃ text, Yields (envelopeBuild callbackUri (some payload) correlationId) (some text) ∧
      (t = .null → Yields (envelopeSplit text) none) ∧
      (t ≠ .null → ∃ body,
        Yields (envelopeSplit text) (some ⟨callbackUri, correlationId, body⟩) ∧
          Denotes body.toList t.value ∧ Json.parseText body = Json.parseText payload) := by
  have hclean := hlimits.clean
  have hsplit := yields_split_tree hexact hclean hdepth hcallback hcorrelation
  refine ⟨_, yields_build_tree ht hlimits, ?_, ?_⟩
  · rintro rfl
    rwa [Json.Tree.node, partsOf_envelope_null] at hsplit
  · intro hnull
    have hutf8 := Json.utf8_node hclean ht.utf8
    have hdenotes := Json.denotes_printValue hutf8
    rw [Json.value_node hexact] at hdenotes
    have hback := Json.parseText_printText (Json.nulFree_node hclean)
      ((Json.depth_node t).symm ▸ hdepth.le)
    rw [Json.written_node hexact] at hback
    have htext := bodyText?_of_composite (Json.node_ne_null hnull) (Json.node_not_string hstring)
    rw [partsOf_envelope htext (by rw [hback]; rfl)] at hsplit
    obtain ⟨-, w, w', hs⟩ := ht
    refine ⟨_, hsplit, ?_, ?_⟩
    · rwa [Json.printText, String.toList_ofList]
    · rw [hback, (Json.parseText_eq_node_iff hs).2 hlimits]

def oneDigit : Digits where
  chars := ['1']
  digit c hc := by
    rw [List.mem_singleton.1 hc]
    rfl
  nonempty := List.cons_ne_nil _ _

/-- The tree of the text `[1]`. -/
def oneItem : Tree :=
  .array Blanks.none (.cons Blanks.none
    (.number ⟨false, oneDigit, fun h => absurd (Option.some.inj h) (by decide), none, none⟩)
    Blanks.none .nil)

theorem oneItem_exact : oneItem.AllNumerals Json.PrintsExactly := by
  refine ⟨⟨by decide +kernel, ?_⟩, trivial⟩
  apply Json.decimalOf_numeral
  decide +kernel

theorem envelope_roundTrip_oneItem :
    ∃ text, Yields (envelopeBuild (some "http://amf/n") (some "[1]") none) (some text) ∧
      ∃ body, Yields (envelopeSplit text) (some ⟨some "http://amf/n", none, body⟩) ∧
        Denotes body.toList oneItem.value ∧ Json.parseText body = Json.parseText "[1]" := by
  have htext : Json.TreeOf oneItem "[1]" :=
    ⟨Json.utf8_word rfl, Blanks.none, Blanks.none, rfl⟩
  have hlimits : Json.Tree.WithinLimits oneItem :=
    ⟨by decide, ⟨trivial, trivial⟩, Nat.le_of_ble_eq_true rfl, trivial⟩
  have hcallback : ∀ s ∈ some "http://amf/n", Json.NulFree s := by
    intro s hs
    obtain rfl := Option.some.inj hs
    exact (Json.proper_word rfl).1
  have hcorrelation : ∀ s ∈ (none : Option String), Json.NulFree s := by
    intro s hs
    cases hs
  obtain ⟨text, hbuild, -, hsplit⟩ := envelope_roundTrip htext oneItem_exact hlimits
    (by decide) (fun ps h => nomatch h) hcallback hcorrelation
  exact ⟨text, hbuild, hsplit fun h => nomatch h⟩

/-- The text `null` is a payload whose row can never be split. -/
theorem not_roundTrip_null : Json.TreeOf .null "null" ∧
    ∃ text, Yields (envelopeBuild none (some "null") none) (some text) ∧
      Yields (envelopeSplit text) none := by
  have htext : Json.TreeOf .null "null" :=
    ⟨Json.utf8_word rfl, Blanks.none, Blanks.none, rfl⟩
  have hread : Json.parseText "null" = some .null := by decide
  have hnone : ∀ s ∈ (none : Option String), Json.NulFree s := by
    intro s hs
    cases hs
  have hback := @parseText_envelope none none .null hnone hnone trivial (by decide)
  have hbuild := yields_envelopeBuild none none "null"
  rw [storedBody, hread, Option.getD_some] at hbuild
  exact ⟨htext, _, hbuild, yields_envelopeSplit hback⟩

end payload

end Nssf
