import Mathlib.Logic.Function.Iterate
import Nssf.Design.Manifest

/-! Which overrides survive the regenerations of a manifest: the block of the user, with what the
policy adds to it, is read back as it was written for as long as the same policy holds. -/

namespace Nssf.Design.Manifest

open Base Base.Flow

structure Exclude where
  spec : Text
  reason : Text

structure Addition where
  spec : Text
  category : Text
  role : Text

/-- A block as the user writes it. -/
structure Block where
  exclude : List Exclude
  add : List Addition

def Exclude.mapping (e : Exclude) : Mapping := excludeMapping (.text e.spec) (.text e.reason)

def Addition.fields (a : Addition) : List (Text × Value) :=
  [(specKey, .text a.spec), ("category".toList, .text a.category), ("role".toList, .text a.role)]

def Addition.mapping (a : Addition) : Mapping := mappingOf a.fields

def Block.overrides (b : Block) : Overrides :=
  ⟨(b.exclude.map Exclude.mapping).map some, (b.add.map Addition.mapping).map some⟩

def Block.texts (b : Block) : List Text :=
  b.exclude.flatMap (fun e => [e.spec, e.reason]) ++
    b.add.flatMap fun a => [a.spec, a.category, a.role]

section mappings

variable {s : Section} {fields : List (Text × Value)}

theorem mappingOf_eq_some_iff {k : Text} {v : Value} :
    mappingOf fields k = some v ↔ Dict.Last fields k v := Dict.get?_ofList_eq_some_iff

theorem fits_mappingOf (h : fields.map Prod.fst = s.keys.map Prod.fst) :
    s.Fits (mappingOf fields) := by
  intro k
  rw [← h, Option.isSome_iff_exists]
  constructor
  · rintro ⟨v, hv⟩
    exact List.mem_map_of_mem (mappingOf_eq_some_iff.1 hv).mem
  · intro hk
    obtain ⟨v, hlast⟩ := Dict.exists_last hk
    exact ⟨v, mappingOf_eq_some_iff.2 hlast⟩

theorem sound_mappingOf_iff (hnodup : (fields.map Prod.fst).Nodup) :
    Sound (mappingOf fields) ↔ ∀ f ∈ fields, f.2.safe = true := by
  constructor
  · intro h f hf
    exact h f.1 f.2 (mappingOf_eq_some_iff.2 (Dict.last_of_mem hnodup hf))
  · intro h k v hv
    exact h (k, v) (mappingOf_eq_some_iff.1 hv).mem

theorem fits_exclude (spec reason : Value) : excludeSection.Fits (excludeMapping spec reason) :=
  fits_mappingOf rfl

theorem nodup_exclude (spec reason : Value) :
    ([(specKey, spec), (reasonKey, reason)].map Prod.fst).Nodup := lawful_exclude.keys.nodup

theorem nodup_addition (a : Addition) : (a.fields.map Prod.fst).Nodup := lawful_add.keys.nodup

theorem sound_exclude_iff {spec reason : Value} :
    Sound (excludeMapping spec reason) ↔ spec.safe = true ∧ reason.safe = true := by
  rw [excludeMapping, sound_mappingOf_iff (nodup_exclude spec reason)]
  simp

theorem fits_addition (a : Addition) : addSection.Fits a.mapping := fits_mappingOf rfl

theorem sound_addition_iff {a : Addition} : Sound a.mapping ↔
    ∀ t ∈ [a.spec, a.category, a.role], (Value.text t).safe = true := by
  rw [Addition.mapping, sound_mappingOf_iff (nodup_addition a)]
  simp [Addition.fields]

theorem spec_exclude (spec reason : Value) : excludeMapping spec reason specKey = some spec :=
  mappingOf_eq_some_iff.2 (Dict.last_of_mem (nodup_exclude spec reason) (.head _))

end mappings

section merge

/-- The first derived exclusion of its spec. -/
def First (ds : List Derived) (d : Derived) : Prop :=
  ∃ before after, ds = before ++ d :: after ∧ ∀ d' ∈ before, d'.spec ≠ d.spec

theorem first_cons_iff {e d : Derived} {ds : List Derived} :
    First (e :: ds) d ↔ d = e ∨ (e.spec ≠ d.spec ∧ First ds d) := by
  constructor
  · rintro ⟨before, after, heq, hbefore⟩
    cases before with
    | nil =>
      cases heq
      exact .inl rfl
    | cons e' before =>
      cases heq
      exact .inr ⟨hbefore e (.head _), before, after, rfl,
        fun d' hd' => hbefore d' (.tail _ hd')⟩
  · rintro (rfl | ⟨hne, before, after, rfl, hbefore⟩)
    · exact ⟨[], ds, rfl, fun d' hd' => absurd hd' List.not_mem_nil⟩
    · refine ⟨e :: before, after, rfl, fun d' hd' => ?_⟩
      obtain rfl | hd' := List.mem_cons.1 hd'
      · exact hne
      · exact hbefore d' hd'

theorem text_inj {t t' : Text} : Value.text t = .text t' ↔ t = t' := by
  rw [Value.text.injEq]

theorem mem_missing_iff {specs : List Value} {ds : List Derived} {d : Derived} :
    d ∈ missing specs ds ↔ First ds d ∧ .text d.spec ∉ specs := by
  induction ds generalizing specs with
  | nil =>
    constructor
    · intro h
      cases h
    · rintro ⟨⟨before, after, heq, -⟩, -⟩
      cases before <;> cases heq
  | cons e ds ih =>
    rw [missing, first_cons_iff]
    split_ifs with he
    · rw [ih]
      constructor
      · rintro ⟨hfirst, hd⟩
        exact ⟨.inr ⟨fun heq => hd (heq ▸ he), hfirst⟩, hd⟩
      · rintro ⟨rfl | ⟨-, hfirst⟩, hd⟩
        · exact absurd he hd
        · exact ⟨hfirst, hd⟩
    · rw [List.mem_cons, ih, List.mem_cons, not_or, text_inj]
      constructor
      · rintro (rfl | ⟨hfirst, hne, hd⟩)
        · exact ⟨.inl rfl, he⟩
        · exact ⟨.inr ⟨Ne.symm hne, hfirst⟩, hd⟩
      · rintro ⟨rfl | ⟨hne, hfirst⟩, hd⟩
        · exact .inl rfl
        · exact .inr ⟨hfirst, Ne.symm hne, hd⟩

/-- A spec that has not been listed is added once. -/
theorem count_missing (specs : List Value) (ds : List Derived) (v : Value) :
    ((missing specs ds).map fun d => Value.text d.spec).count v =
      if v ∉ specs ∧ v ∈ ds.map fun d => Value.text d.spec then 1 else 0 := by
  induction ds generalizing specs with
  | nil => simp [missing]
  | cons e ds ih =>
    rw [missing]
    split_ifs with he hv hv
    · rw [ih, if_pos]
      obtain ⟨hv, hmem⟩ := hv
      obtain rfl | hmem := List.mem_cons.1 hmem
      · exact absurd he hv
      · exact ⟨hv, hmem⟩
    · rw [ih, if_neg]
      exact fun ⟨hout, hmem⟩ => hv ⟨hout, .tail _ hmem⟩
    · rw [List.map_cons, List.count_cons, ih]
      obtain ⟨hout, hmem⟩ := hv
      by_cases heq : v = .text e.spec
      · simp [heq]
      · obtain heq' | hmem := List.mem_cons.1 hmem
        · exact absurd heq' heq
        · rw [if_pos ⟨fun h => (List.mem_cons.1 h).elim heq hout, hmem⟩,
            if_neg (by simpa using Ne.symm heq)]
    · rw [List.map_cons, List.count_cons, ih]
      have hne : Value.text e.spec ≠ v := by
        rintro rfl
        exact hv ⟨he, .head _⟩
      rw [if_neg fun ⟨hout, hmem⟩ => hv ⟨fun h => hout (.tail _ h), .tail _ hmem⟩,
        if_neg (by simpa using hne)]

theorem missing_eq_nil {specs : List Value} {ds : List Derived}
    (h : ∀ d ∈ ds, .text d.spec ∈ specs) : missing specs ds = [] := by
  induction ds with
  | nil => rfl
  | cons d ds ih =>
    rw [missing, if_pos (h d (.head _))]
    exact ih fun d' hd' => h d' (.tail _ hd')

theorem specsOf_append (is is' : List Item) : specsOf (is ++ is') = specsOf is ++ specsOf is' :=
  List.filterMap_append

theorem specsOf_derived (ds : List Derived) :
    specsOf (ds.map fun d => some (excludeMapping (.text d.spec) d.reason)) =
      ds.map fun d => Value.text d.spec := by
  induction ds with
  | nil => rfl
  | cons d ds ih =>
    have hspec := spec_exclude (.text d.spec) d.reason
    rw [specsOf] at ih ⊢
    rw [List.map_cons, List.filterMap_cons, Option.bind_some, hspec, ih]
    rfl

theorem truthy_spec (d : Derived) : (Value.text d.spec).truthy = true := by
  have hne := d.nonempty
  simpa [Value.truthy] using hne

theorem mem_truthy_iff {specs : List Value} (d : Derived) :
    .text d.spec ∈ specs.filter Value.truthy ↔ .text d.spec ∈ specs := by
  rw [List.mem_filter, and_iff_left (truthy_spec d)]

variable (manual : Overrides) (derived : List Derived)

theorem specsOf_merge : specsOf (mergeOverridesWithPolicy manual derived).exclude =
    specsOf manual.exclude ++
      (missing ((specsOf manual.exclude).filter Value.truthy) derived).map
        fun d => Value.text d.spec := by
  rw [mergeOverridesWithPolicy, specsOf_append, specsOf_derived]

theorem count_merge {d : Derived} (hd : d ∈ derived) :
    (specsOf (mergeOverridesWithPolicy manual derived).exclude).count (.text d.spec) =
      max 1 ((specsOf manual.exclude).count (.text d.spec)) := by
  rw [specsOf_merge, List.count_append, count_missing]
  simp only [mem_truthy_iff]
  split_ifs with h
  · rw [List.count_eq_zero_of_not_mem h.1]
    rfl
  · have hmem : .text d.spec ∈ specsOf manual.exclude := by
      by_contra hout
      exact h ⟨hout, List.mem_map.2 ⟨d, hd, rfl⟩⟩
    have hpos := List.count_pos_iff.2 hmem
    omega

/-- Merging again with the same policy adds nothing. -/
theorem merge_merge : mergeOverridesWithPolicy (mergeOverridesWithPolicy manual derived) derived =
    mergeOverridesWithPolicy manual derived := by
  have hnil : missing ((specsOf (mergeOverridesWithPolicy manual derived).exclude).filter
      Value.truthy) derived = [] := by
    refine missing_eq_nil fun d hd => (mem_truthy_iff d).2 ?_
    have hcount := count_merge manual derived hd
    exact List.count_pos_iff.1 (by omega)
  rw [mergeOverridesWithPolicy, hnil, List.map_nil, List.append_nil]

end merge

section survival

variable (user : Block) (derived : List Derived)

/-- The overrides of the first run. -/
def merged : Overrides := mergeOverridesWithPolicy user.overrides derived

/-- The block after `n` more runs. -/
def written (n : ℕ) : Text := (regenerate derived)^[n] (renderYaml (merged user derived))

structure Survives : Prop where
  read_back : ∀ n, loadExistingOverrides (written user derived n) = merged user derived
  unchanged : ∀ n, written user derived n = written user derived 0
  user_kept : ∀ n, ∃ policy, loadExistingOverrides (written user derived n) =
    ⟨user.overrides.exclude ++ policy, user.overrides.add⟩
  policy_once : ∀ n, ∀ d ∈ derived,
    (specsOf (loadExistingOverrides (written user derived n)).exclude).count (.text d.spec) =
      max 1 ((specsOf user.overrides.exclude).count (.text d.spec))

/-- The policy asks for the exclusion, and first in this way, where the user does not. -/
def Applies (d : Derived) : Prop := First derived d ∧ ∀ e ∈ user.exclude, e.spec ≠ d.spec

/-- The mappings of the exclusions of the first run. -/
def excluded : List Mapping := user.exclude.map Exclude.mapping ++
  (missing ((specsOf user.overrides.exclude).filter Value.truthy) derived).map
    fun d => excludeMapping (.text d.spec) d.reason

theorem merged_eq : merged user derived =
    ⟨(excluded user derived).map some, (user.add.map Addition.mapping).map some⟩ := by
  have hderived : ∀ ds : List Derived,
      ds.map (fun d => some (excludeMapping (.text d.spec) d.reason)) =
        (ds.map fun d => excludeMapping (.text d.spec) d.reason).map some := by
    intro ds
    rw [List.map_map]
    rfl
  rw [merged, mergeOverridesWithPolicy, excluded, List.map_append, hderived]
  rfl

theorem specsOf_user :
    specsOf user.overrides.exclude = user.exclude.map fun e => Value.text e.spec := by
  have hspec : ∀ es : List Exclude, specsOf ((es.map Exclude.mapping).map some) =
      es.map fun e => Value.text e.spec := by
    intro es
    induction es with
    | nil => rfl
    | cons e es ih =>
      have he : e.mapping specKey = some (.text e.spec) := spec_exclude _ _
      rw [specsOf] at ih ⊢
      rw [List.map_cons, List.map_cons, List.filterMap_cons, Option.bind_some, he, ih]
      rfl
  exact hspec user.exclude

theorem applies_iff {d : Derived} : Applies user derived d ↔
    d ∈ missing ((specsOf user.overrides.exclude).filter Value.truthy) derived := by
  have hspecs : .text d.spec ∉ specsOf user.overrides.exclude ↔
      ∀ e ∈ user.exclude, e.spec ≠ d.spec := by
    rw [specsOf_user, List.mem_map, not_exists]
    simp only [text_inj, not_and, ne_eq]
  rw [mem_missing_iff, mem_truthy_iff, hspecs]
  rfl

theorem fits_excluded : ∀ m ∈ excluded user derived, excludeSection.Fits m := by
  intro m hm
  rw [excluded, List.mem_append, List.mem_map, List.mem_map] at hm
  obtain ⟨e, -, rfl⟩ | ⟨d, -, rfl⟩ := hm
  · exact fits_exclude _ _
  · exact fits_exclude _ _

theorem fits_added : ∀ m ∈ user.add.map Addition.mapping, addSection.Fits m := by
  intro m hm
  obtain ⟨a, -, rfl⟩ := List.mem_map.1 hm
  exact fits_addition a

theorem forall_pair_iff {p : Text → Prop} (t t' : Text) :
    (∀ x ∈ [t, t'], p x) ↔ p t ∧ p t' := by
  rw [List.forall_mem_cons, List.forall_mem_singleton]

theorem sound_excluded_iff : (∀ m ∈ excluded user derived, Sound m) ↔
    (∀ e ∈ user.exclude, ∀ t ∈ [e.spec, e.reason], (Value.text t).safe = true) ∧
      ∀ d, Applies user derived d → (Value.text d.spec).safe = true ∧ d.reason.safe = true := by
  rw [excluded, List.forall_mem_append, List.forall_mem_map, List.forall_mem_map]
  simp only [Exclude.mapping, sound_exclude_iff, applies_iff, forall_pair_iff]

theorem sound_added_iff : (∀ m ∈ user.add.map Addition.mapping, Sound m) ↔
    ∀ a ∈ user.add, ∀ t ∈ [a.spec, a.category, a.role], (Value.text t).safe = true := by
  rw [List.forall_mem_map]
  simp only [sound_addition_iff]

theorem safe_texts_iff : (∀ t ∈ user.texts, (Value.text t).safe = true) ↔
    (∀ e ∈ user.exclude, ∀ t ∈ [e.spec, e.reason], (Value.text t).safe = true) ∧
      ∀ a ∈ user.add, ∀ t ∈ [a.spec, a.category, a.role], (Value.text t).safe = true := by
  rw [Block.texts, List.forall_mem_append, List.forall_mem_flatMap, List.forall_mem_flatMap]

/-- The first run is read back just when everything that it writes is safe. -/
theorem load_merged_iff :
    loadExistingOverrides (renderYaml (merged user derived)) = merged user derived ↔
      (∀ t ∈ user.texts, (Value.text t).safe = true) ∧
        ∀ d, Applies user derived d → (Value.text d.spec).safe = true ∧ d.reason.safe = true := by
  rw [merged_eq, load_render_iff (fits_excluded user derived) (fits_added user),
    sound_excluded_iff, sound_added_iff, safe_texts_iff, and_right_comm]

theorem regenerate_fixed {user : Block} {derived : List Derived}
    (h : loadExistingOverrides (renderYaml (merged user derived)) = merged user derived) :
    regenerate derived (renderYaml (merged user derived)) = renderYaml (merged user derived) := by
  rw [regenerate, h, merged, merge_merge]

theorem written_fixed {user : Block} {derived : List Derived}
    (h : loadExistingOverrides (renderYaml (merged user derived)) = merged user derived) (n : ℕ) :
    written user derived n = renderYaml (merged user derived) :=
  Function.iterate_fixed (regenerate_fixed h) n

/-- The overrides of the user survive any number of regenerations, and the policy is listed once,
just when every text of the user's block, and the spec and the reason of every exclusion that the
policy adds to it, is a string of printable characters that reads as itself in quotes. -/
theorem overrides_survive_iff (user : Block) (absorbed operational : List Item) :
    Survives user (loadPolicyDerivedExcludes absorbed operational) ↔
      (∀ t ∈ user.texts, (Value.text t).safe = true) ∧
        ∀ d, Applies user (loadPolicyDerivedExcludes absorbed operational) d →
          (Value.text d.spec).safe = true ∧ d.reason.safe = true := by
  rw [← load_merged_iff]
  generalize loadPolicyDerivedExcludes absorbed operational = derived
  constructor
  · exact fun h => h.read_back 0
  · intro h
    have hread : ∀ n, loadExistingOverrides (written user derived n) = merged user derived := by
      intro n
      rw [written_fixed h, h]
    refine ⟨hread, fun n => (written_fixed h n).trans (written_fixed h 0).symm, fun n => ?_, ?_⟩
    · exact ⟨_, hread n⟩
    · intro n d hd
      rw [hread n]
      exact count_merge user.overrides derived hd

def outOfScope : Block where
  exclude := [⟨"38.413".toList, "NG-RAN \"out\" of scope".toList⟩]
  add := []

/-- A reason with a quoted word leaves a manifest that cannot be parsed, and the next run finds no
overrides. -/
theorem quoted_reason_drops_overrides :
    (loadExistingOverrides (renderYaml (merged outOfScope []))).exclude = [] ∧
      ¬∀ (user : Block) (absorbed operational : List Item),
        Survives user (loadPolicyDerivedExcludes absorbed operational) := by
  have hlost : (loadExistingOverrides (renderYaml (merged outOfScope []))).exclude.length = 0 := by
    decide
  refine ⟨List.eq_nil_of_length_eq_zero hlost, fun h => ?_⟩
  have hread := (h outOfScope [] []).read_back 0
  have hlen : (merged outOfScope []).exclude.length = 0 := by
    rw [← hlost]
    exact congrArg (fun o => o.exclude.length) hread.symm
  cases hlen

end survival

end Nssf.Design.Manifest
