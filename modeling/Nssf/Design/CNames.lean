import Nssf.Base.Numerals
import Nssf.Design.CStructs

/-! Which names the generated declarations give twice. The renaming loses nothing but the
characters that no identifier has, and what it puts in or behind a name can meet another. -/

namespace Nssf.Design.CStructs

open Base

section tags

end tags

section fields

end fields

section members

variable {collected : Collected}

end members

section constants

variable {collected : Collected}

def CBody.constants : CBody → List String
  | .enumeration constants => constants
  | .unresolved => []
  | .variant _ => []
  | .array _ => []
  | .scalar _ => []
  | .object _ => []

/-- The values of a schema that becomes an enumeration. -/
def enumValues (s : Schema) : List String :=
  if s.hasAllOf = false ∧ s.head.type.getD "string" = "string" then s.head.enum.getD [] else []

/-- The values of an enumeration stay apart, and no enumeration has a name that goes on from
that of another behind a `_`. -/
structure ConstantsApart (collected : Collected) : Prop where
  values : ∀ n s, schemaOf? collected n = some s → ((enumValues s).map enumBase).Nodup
  names : ∀ a b sa sb, a ≠ b → schemaOf? collected a = some sa →
    schemaOf? collected b = some sb → enumValues sa ≠ [] → enumValues sb ≠ [] →
    ¬(upperName a ++ ['_']) <+: (upperName b ++ ['_'])

theorem ConstantsApart.nodup {n : String} {s : Schema} (h : ConstantsApart collected)
    (hs : schemaOf? collected n = some s) :
    ((enumValues s).map (safeEnumValue n)).Nodup := by
  have hbases := h.values n s hs
  have hcompose : (enumValues s).map (safeEnumValue n) =
      ((enumValues s).map enumBase).map fun base =>
        String.ofList (upperName n ++ '_' :: base) := by
    rw [List.map_map]
    rfl
  rw [hcompose]
  refine hbases.map fun x y heq => ?_
  exact (List.cons.inj (List.append_cancel_left (String.ofList_injective heq))).2

end constants

end Nssf.Design.CStructs
