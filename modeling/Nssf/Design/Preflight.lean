import Mathlib
import Nssf.Design.FrontMatter

/-! The preflight of a generated text: it passes just when no marker stands in a body that the
front matter does not name. -/

namespace Nssf.Design.Contract

open Base Base.Matches Base.PyText UserBlocks

section start

variable {w : WordClass} {kind : Text}

end start

section assembled

variable {w : WordClass} {topicId status : Text} {c : Category} {bodies preserved : Dict Text Text}

/-- A text without marks: something on one line. -/
structure Plain (cs : Text) : Prop where
  nonempty : cs ≠ []
  line : '\n' ∉ cs
  angle : '<' ∉ cs

end assembled

section preflight

variable {t : Tools} {topicId status : Text} {c : Category} {bodies preserved : Dict Text Text}

/-- The front matter as a document. -/
def frontValue (topicId status : Text) (c : Category) : PyValue :=
  .dict [("topic_id", asText topicId), ("category", .text c.name), ("status", asText status),
    ("generated_sections", .list (c.autoIds.map .text)),
    ("user_sections", .list (c.userIds.map .text))]

end preflight

end Nssf.Design.Contract
