import Nssf.Json.Encoding

/-! Texts whose numbers the printer writes exactly. What such a text is read as is printed with the
value of the text, and that is read as the same tree again. -/

namespace Nssf.Json

open Base JsonText

/-- The number that the numeral is read as is printed with the value of the numeral. -/
def PrintsExactly (n : Numeral) : Prop :=
  (Binary64.ofNumeral n).isInf = false ∧ decimalOf (Binary64.ofNumeral n) = n.value

section node

theorem nulFree_decode {ps : List Piece} (h : cleanString ps) :
    NulFree (String.ofList (decode ps)) := by
  rw [NulFree, String.toList_ofList]
  exact h.2

mutual

theorem value_node : ∀ {t : Tree}, t.AllNumerals PrintsExactly → value (Tree.node t) = t.value
  | .null, _ => rfl
  | .bool _, _ => rfl
  | .number n, h => by
    simp only [Tree.node, value, Tree.value, h.1, h.2, Bool.false_eq_true, if_false]
  | .string _, _ => by rw [Tree.node, value, Tree.value, String.toList_ofList]
  | .array _ _, h => by rw [Tree.node, value, Tree.value, itemValues_nodes h]
  | .object _ _, h => by rw [Tree.node, value, Tree.value, memberValues_nodes h]

theorem itemValues_nodes : ∀ {items : Items}, items.AllNumerals PrintsExactly →
    itemValues (Items.nodes items) = items.values
  | .nil, _ => rfl
  | .cons _ _ _ _, h => by
    rw [Items.nodes, itemValues, Items.values, value_node h.1, itemValues_nodes h.2]

theorem memberValues_nodes : ∀ {members : Members}, members.AllNumerals PrintsExactly →
    memberValues (Members.nodes members) = members.values
  | .nil, _ => rfl
  | .cons _ _ _ _ _ _ _, h => by
    rw [Members.nodes, memberValues, Members.values, value_node h.1, memberValues_nodes h.2,
      String.toList_ofList]

end

mutual

theorem written_node : ∀ {t : Tree}, t.AllNumerals PrintsExactly →
    written (Tree.node t) = Tree.node t
  | .null, _ => rfl
  | .bool _, _ => rfl
  | .number _, h => by simp only [Tree.node, written, h.1, Bool.false_eq_true, if_false]
  | .string _, _ => rfl
  | .array _ _, h => by rw [Tree.node, written, writtenItems_nodes h]
  | .object _ _, h => by rw [Tree.node, written, writtenMembers_nodes h]

theorem writtenItems_nodes : ∀ {items : Items}, items.AllNumerals PrintsExactly →
    writtenItems (Items.nodes items) = Items.nodes items
  | .nil, _ => rfl
  | .cons _ _ _ _, h => by
    rw [Items.nodes, writtenItems, written_node h.1, writtenItems_nodes h.2]

theorem writtenMembers_nodes : ∀ {members : Members}, members.AllNumerals PrintsExactly →
    writtenMembers (Members.nodes members) = Members.nodes members
  | .nil, _ => rfl
  | .cons _ _ _ _ _ _ _, h => by
    rw [Members.nodes, writtenMembers, written_node h.1, writtenMembers_nodes h.2]

end

mutual

theorem nulFree_node : ∀ {t : Tree}, t.AllStrings cleanString → AllStrings NulFree (Tree.node t)
  | .null, _ => trivial
  | .bool _, _ => trivial
  | .number _, _ => trivial
  | .string _, h => nulFree_decode h
  | .array _ _, h => nulFree_nodes h
  | .object _ _, h => nulFree_memberNodes h

theorem nulFree_nodes : ∀ {items : Items}, items.AllStrings cleanString →
    AllItems NulFree (Items.nodes items)
  | .nil, _ => trivial
  | .cons _ _ _ _, h => ⟨nulFree_node h.1, nulFree_nodes h.2⟩

theorem nulFree_memberNodes : ∀ {members : Members}, members.AllStrings cleanString →
    AllMembers NulFree (Members.nodes members)
  | .nil, _ => trivial
  | .cons _ _ _ _ _ _ _, h =>
    ⟨nulFree_decode h.1, nulFree_node h.2.1, nulFree_memberNodes h.2.2⟩

end

mutual

theorem depth_node : ∀ t : Tree, (Tree.node t).depth = t.depth
  | .null => rfl
  | .bool _ => rfl
  | .number _ => rfl
  | .string _ => rfl
  | .array _ items => by rw [Tree.node, depth, Tree.depth, depth_nodes items]
  | .object _ members => by rw [Tree.node, depth, Tree.depth, depth_memberNodes members]

theorem depth_nodes : ∀ items : Items, depthItems (Items.nodes items) = items.depth
  | .nil => rfl
  | .cons _ t _ rest => by
    rw [Items.nodes, depthItems, Items.depth, depth_node t, depth_nodes rest]

theorem depth_memberNodes : ∀ members : Members,
    depthMembers (Members.nodes members) = members.depth
  | .nil => rfl
  | .cons _ _ _ _ t _ rest => by
    rw [Members.nodes, depthMembers, Members.depth, depth_node t, depth_memberNodes rest]

end

theorem node_ne_null {t : Tree} (h : t ≠ .null) : Tree.node t ≠ .null := by
  cases t with
  | null => exact absurd rfl h
  | _ => exact fun heq => nomatch heq

theorem node_not_string {t : Tree} (h : ∀ ps, t ≠ .string ps) (s : String) :
    Tree.node t ≠ .string s := by
  cases t with
  | string ps => exact absurd rfl (h ps)
  | _ => exact fun heq => nomatch heq

end node

section texts

variable {t : Tree} {v : String}

theorem Tree.WithinLimits.clean (h : Tree.WithinLimits t) : t.AllStrings cleanString := by
  cases t with
  | number _ => trivial
  | _ => exact h.2.1

theorem TreeOf.utf8 (h : TreeOf t v) : Utf8 t.text := by
  obtain ⟨hutf8, w, w', hs⟩ := h
  rw [hs, utf8_blanks] at hutf8
  have hhead : ∀ c ∈ w'.chars.head?, c.toNat < 0x80 := fun c hc =>
    blanks_ascii w' c (List.mem_of_mem_head? hc)
  exact ((utf8_append_iff hhead).1 hutf8).1

end texts

end Nssf.Json
