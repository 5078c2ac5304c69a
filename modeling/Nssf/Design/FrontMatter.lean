import Mathlib
import Nssf.Design.Materialize
import Nssf.Design.Regenerate

/-! The text of a topic as the preflight and the promotion read it: the lines of its front matter,
the start markers that stand in it, and its status. -/

namespace Nssf.Design.Contract

open Base Base.Matches Base.PyText UserBlocks

section rows

/-- Lines with their ends. -/
def rows (ls : List Text) : Text := (ls.map fun l => l ++ ['\n']).flatten

/-- No line that could end a front matter, and one line only. -/
structure Row (l : Text) : Prop where
  line : '\n' ∉ l
  head : l.head? ≠ some '-'

end rows

section front

variable {topicId status : Text} {c : Category} {bodies preserved : Dict Text Text}

/-- The lines between the fences. -/
def fields (topicId status : Text) (c : Category) : List Text :=
  ["topic_id: ".toList ++ topicId, "category: ".toList ++ c.name.toList,
    "status: ".toList ++ status, "generated_sections:".toList] ++
    c.aids.map (fun id => "  - ".toList ++ id) ++ ["user_sections:".toList] ++
    c.uids.map fun id => "  - ".toList ++ id

/-- What stands below the front matter. -/
def below (topicId : Text) (c : Category) (bodies preserved : Dict Text Text) : Text :=
  lines user ((pieces topicId [] c bodies preserved).tail ++ [lastPiece c preserved])

end front

section patch

variable {w : WordClass} {topicId status : Text} {c : Category} {bodies preserved : Dict Text Text}

end patch

end Nssf.Design.Contract
