import Mathlib
import Nssf.Design.Promotion

/-! After a run the seed, the front matters and the documents tell one status for each topic, and
what the rules on statuses still find is what the run leaves alone on purpose. -/

namespace Nssf.Design.Contract

open Base Base.Independent Base.PyText UserBlocks

section agreement

variable {t : Tools} {nf : Text} {seed : Seed} {e : Text × Topic} {c : Category}
  {files files' : Files} {s : Files × Dict Text PyValue} {out : Output}

/-- The document of a data model stands in its file. -/
theorem Written.machineFile (hw : Written t nf e .dataModel files s out) (ho : Orderly t.word seed)
    (he : e ∈ seed.topics.entries) (hc : categoryOf e.1 = some .dataModel) :
    ∃ path text v items, e.2.machineFile = some path ∧ path ≠ [] ∧ s.1 path = some text ∧
      t.loads text = some v ∧ Document e.1 e.2.statusOr items v ∧
      items.any isBlocking = unsettled t nf files e := by
  obtain ⟨path, text, v, items, hmachine, hitems, hloads, hdoc⟩ := hw.turned.document rfl
  obtain ⟨-, path', hne, hpath'⟩ := ho.machines e he hc
  have hpath := hw.turned.machine path text hmachine
  rw [hpath, Option.some.injEq] at hpath'
  subst hpath'
  refine ⟨path, text, v, items, hpath, hne, hw.machine path text hmachine, hloads, hdoc, ?_⟩
  rw [hw.unsettled_eq hc, hitems]
  rfl

end agreement

section findings

variable {t : Tools} {nf : Text} {seed seed' : Seed} {files files' : Files} {e : Text × Topic}
  {repr : PyValue → Text} {rise : Text × Topic → Bool}

end findings

section run

variable {t : Tools} {nf : Text} {seed : Seed} {files : Files} {e : Text × Topic}

section sample

def sampleEntry : Text × Topic :=
  ("data-model/Snssai".toList, ⟨some draft, "Snssai.md".toList, some "Snssai.json".toList⟩)

def sampleText (status : Text) : Text :=
  "\x7b\"topic_id\": \"data-model/Snssai\", \"status\": \"".toList ++ status ++
    "\", \"unresolved_refs\": []\x7d".toList

end sample

end run

end Nssf.Design.Contract
