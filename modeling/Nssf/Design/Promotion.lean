import Mathlib
import Nssf.Base.Entries
import Nssf.Base.Independent
import Nssf.Design.Preflight
import Nssf.Design.StatusRules

/-! A whole run over a seed: which topics rise, and that afterwards the seed, the front matters and
the documents of the data models all tell the same status. -/

namespace Nssf.Design.Contract

open Base Base.Independent Base.Matches Base.PyText UserBlocks

def Topic.paths (topic : Topic) : List Text := topic.file :: topic.machineFile.toList

/-- A seed as the generators write it: no file belongs to two topics, ids and statuses are plain,
and a data model has a name and a document. -/
structure Orderly (w : WordClass) (seed : Seed) : Prop where
  paths : (seed.topics.entries.flatMap fun e => e.2.paths).Nodup
  ids : ∀ e ∈ seed.topics.entries, Plain e.1 ∧ '#' ∉ e.1
  statuses : ∀ e ∈ seed.topics.entries, e.2.statusOr ≠ [] ∧ ∀ d ∈ e.2.statusOr, w.word d = true
  machines : ∀ e ∈ seed.topics.entries, categoryOf e.1 = some .dataModel →
    '/' ∈ e.1 ∧ ∃ path, path ≠ [] ∧ e.2.machineFile = some path

/-- The document of a data model. -/
structure Document (tid status : Text) (items : List PyValue) (v : PyValue) : Prop where
  topicId : v.get "topic_id" = .ok (asText tid)
  status : v.get "status" = .ok (asText status)
  unresolved : v.get "unresolved_refs" = .ok (.list items)
  items : ∀ i ∈ items, ∃ entries, i = .dict entries

/-- What the tools do with the topics of a seed: the front matter is read as it is written, the
resolver answers for the topic and the status it is asked for, and documents are read back as they
are written. -/
structure Faithful (t : Tools) (nf : Text) (seed : Seed) : Prop where
  front : ∀ e ∈ seed.topics.entries, ∀ c, categoryOf e.1 = some c →
    t.frontMeta (joinTexts (fields e.1 e.2.statusOr c)) = some (frontValue e.1 e.2.statusOr c)
  emitted : ∀ e ∈ seed.topics.entries, ∀ stdout stderr,
    t.resolver e.1 e.2.statusOr = .returned true stdout stderr → strip stdout ≠ [] →
      ∃ v items, t.loads stdout = some v ∧ Document e.1 e.2.statusOr items v
  fallback : ∀ e ∈ seed.topics.entries, ∀ schema note,
    (∀ stdout stderr, t.resolver e.1 e.2.statusOr = .returned true stdout stderr →
      strip stdout = []) →
    t.loads (t.dumps (fallbackClassifiedJson nf e.1 schema e.2.statusOr note)) =
      some (fallbackClassifiedJson nf e.1 schema e.2.statusOr note)
  promoted : ∀ text entries, t.loads text = some (.dict entries) →
    t.loads (t.dumps (.dict (Dict.setEntry "status" (asText handoffReady) entries))) =
      some (.dict (Dict.setEntry "status" (asText handoffReady) entries))

section documents

variable {tid status : Text} {items : List PyValue} {v : PyValue}

theorem Document.entries (h : Document tid status items v) : ∃ entries, v = .dict entries := by
  have hget := h.topicId
  cases v with
  | dict entries => exact ⟨entries, rfl⟩
  | _ => cases hget

theorem getD_lookup {entries : List (String × PyValue)} {key : String} {x : PyValue}
    (h : (PyValue.dict entries).get key = .ok x) : (entries.lookup key).getD .none = x := by
  rw [PyValue.get] at h
  exact Except.ok.inj h

theorem Document.getOr (h : Document tid status items v) :
    (v.orElse (.dict [])).getOr "unresolved_refs" (.list []) = .ok (.list items) := by
  obtain ⟨entries, rfl⟩ := h.entries
  have hlookup := getD_lookup h.unresolved
  have htruthy : (PyValue.dict entries).truthy = true := by
    cases entries with
    | nil => cases hlookup
    | cons e entries => rfl
  rw [PyValue.truthy_orElse htruthy, PyValue.getOr]
  cases hget : entries.lookup "unresolved_refs" with
  | none =>
    rw [hget] at hlookup
    cases hlookup
  | some x =>
    rw [hget] at hlookup
    exact congrArg Except.ok hlookup

end documents

section turn

variable {t : Tools} {nf : Text} {seed : Seed} {e : Text × Topic} {c : Category}

/-- What the turn of a topic makes over its old text. -/
structure Turned (t : Tools) (e : Text × Topic) (c : Category) (old : Option Text)
    (out : Output) : Prop where
  text : out.text =
    regenerate t.word e.1 e.2.statusOr c (t.sections e.1 (out.machine.map Prod.snd)) old
  machine : ∀ path text, out.machine = some (path, text) → e.2.machineFile = some path
  document : c = .dataModel → ∃ path text v items, out.machine = some (path, text) ∧
    out.unresolved = .list items ∧ t.loads text = some v ∧ Document e.1 e.2.statusOr items v

end turn

section loop

variable {t : Tools} {nf : Text} {seed : Seed} {e : Text × Topic} {c : Category} {α : Type}

def Apart (a b : Text × Topic) : Prop := a.1 ≠ b.1 ∧ List.Disjoint a.2.paths b.2.paths

instance : Std.Symm Apart := ⟨fun _ _ hab => ⟨hab.1.symm, hab.2.symm⟩⟩

/-- Nothing of the topic has changed. -/
def Same (e : Text × Topic) (s s' : Files × Dict Text α) : Prop :=
  (∀ p ∈ e.2.paths, s'.1 p = s.1 p) ∧ s'.2.get? e.1 = s.2.get? e.1

theorem Orderly.apart {w : WordClass} (ho : Orderly w seed) :
    seed.topics.entries.Pairwise Apart := by
  have hids : seed.topics.entries.Pairwise fun a b => a.1 ≠ b.1 :=
    List.pairwise_map.1 seed.topics.nodup
  exact hids.and (List.nodup_flatMap.1 ho.paths).2

/-- What the run has written for a topic, from the text that the topic had before. -/
structure Written (t : Tools) (nf : Text) (e : Text × Topic) (c : Category) (files : Files)
    (s : Files × Dict Text PyValue) (out : Output) : Prop where
  made : output t nf e.1 e.2 c (files e.2.file) = .ok out
  turned : Turned t e c (files e.2.file) out
  text : s.1 e.2.file = some out.text
  machine : ∀ path text, out.machine = some (path, text) → s.1 path = some text
  unresolved : c = .dataModel → s.2.get? e.1 = some out.unresolved

end loop

section rise

variable {t : Tools} {nf : Text} {seed : Seed} {e : Text × Topic} {c : Category} {files : Files}
  {s : Files × Dict Text PyValue} {out : Output}

def blocked (unresolved : PyValue) : Bool :=
  match unresolved with
  | .list items => items.any isBlocking
  | _ => false

/-- Whether the resolver's document of a data model has something in it that blocks. -/
def unsettled (t : Tools) (nf : Text) (files : Files) (e : Text × Topic) : Bool :=
  match categoryOf e.1 with
  | some .dataModel =>
    match output t nf e.1 e.2 .dataModel (files e.2.file) with
    | .error _ => false
    | .ok out => blocked out.unresolved
  | _ => false

theorem Written.unsettled_eq (hw : Written t nf e .dataModel files s out)
    (hc : categoryOf e.1 = some .dataModel) : unsettled t nf files e = blocked out.unresolved := by
  rw [unsettled, hc]
  simp only [hw.made]

end rise

section promotion

variable {t : Tools} {seed : Seed} {e : Text × Topic} {s : Files × Dict Text Topic}

variable {rise : Text × Topic → Bool}

/-- What a topic is after the promotion of those that rise. -/
def settle (rise : Text × Topic → Bool) (e : Text × Topic) : Text × Topic :=
  (e.1, if rise e then e.2.promoted else e.2)

end promotion

end Nssf.Design.Contract
