import Nssf.Availability.PgRepository
import Nssf.Json.Comparing
import Nssf.Subscription.Fanout

/-! When two trees name one tracking area. The in-memory repository compares what the trees
print, PostgreSQL the content of those texts, the filter of a subscription the trees. -/

namespace Nssf

open Base Run JsonText Json

namespace PgRepo

variable (jsonb : Jsonb)

/-- What is a tracking area, or a PLMN, the same for the repositories and for a filter. -/
structure OneKey (a b : Json) (d e : jsonb.Doc) : Prop where
  mem_iff_pg : sameText (some a) (some b) = true ↔ jsonb.same d e = true
  mem_iff_filter : sameText (some a) (some b) = true ↔ Json.compare b a = true

/-- A member moved past another, dropped under a later one of its name, the sign of a zero and
the `null` of an infinite number make no difference; only the tree itself may look so, and its
repeated names must not disagree. -/
def Unmistaken (a b : Json) : Prop := Rearranged a.value b.value → a = b ∧ a.Consistent

variable {jsonb} {a b : Json} {d e : jsonb.Doc}

theorem same_iff_rearranged (ha : a.Proper) (hb : b.Proper) (hd : jsonb.cast a.printText = some d)
    (he : jsonb.cast b.printText = some e) :
    jsonb.same d e = true ↔ Rearranged a.value b.value := by
  rw [jsonb.same_iff ha hb hd he, canonical_eq_iff]

theorem sameText_iff (ha : a.Proper) (hb : b.Proper) :
    sameText (some a) (some b) = true ↔ a.written = b.written := by
  rw [sameText, beq_iff_eq, printText_eq_iff ha.nulFree hb.nulFree]

theorem rearranged_of_sameText (ha : a.Proper) (hb : b.Proper)
    (h : sameText (some a) (some b) = true) : Rearranged a.value b.value := by
  rw [sameText_iff ha hb] at h
  rw [← value_written a, h, value_written b]
  exact .refl _

theorem rearranged_of_compare (h : Json.compare b a = true) : Rearranged a.value b.value :=
  (canonical_eq_iff.1 (canonical_of_compareTo h)).symm

theorem oneKey_iff (ha : a.Proper) (hb : b.Proper) (hd : jsonb.cast a.printText = some d)
    (he : jsonb.cast b.printText = some e) : OneKey jsonb a b d e ↔ Unmistaken a b := by
  have hpg := same_iff_rearranged ha hb hd he
  constructor
  · rintro ⟨hmem, hfilter⟩ hcontent
    have htext := hmem.2 (hpg.2 hcontent)
    have hcompare := hfilter.1 htext
    have hback := compareTo_symm hcompare
    have heq : b = a := eq_of_written hcompare (compareTo_trans hback hcompare)
      ((sameText_iff ha hb).1 htext).symm
    subst heq
    exact ⟨rfl, compare_self_iff.1 hcompare⟩
  · intro h
    by_cases hcontent : Rearranged a.value b.value
    · obtain ⟨rfl, hconsistent⟩ := h hcontent
      have htext : sameText (some a) (some a) = true := sameText_refl _
      exact ⟨iff_of_true htext (hpg.2 hcontent),
        iff_of_true htext (compare_self_iff.2 hconsistent)⟩
    · have htext := mt (rearranged_of_sameText ha hb) hcontent
      exact ⟨iff_of_false htext (mt hpg.1 hcontent),
        iff_of_false htext (mt rearranged_of_compare hcontent)⟩

/-- A subscription whose filter asks for one tracking area. -/
theorem filterMatchesEvent_tai {ms : List (String × Json)} {ev : ChangeEvent}
    (hb : findMember ms "tai" = some b) (ha : ev.tai = some a) :
    Yields (Subscription.filterMatchesEvent (some (.object ms)) ev) (Json.compare b a) := by
  have hmatch : Subscription.filterMatchesEvent (some (.object ms)) ev =
      pure (ev.tai.any b.compare) := by
    simp only [Subscription.filterMatchesEvent, getObjectItem_of_lookable (lookable_object ms),
      member?, hb]
    rfl
  rw [hmatch, ha]
  exact yields_pure _

/-- A row of both repositories under one PLMN and tracking area. -/
structure Stored (p a : Json) (dp d : jsonb.Doc) (x : AvailabilityRecord)
    (y : PgAvailability jsonb) : Prop where
  memPlmn : x.plmnId = some p
  memTai : x.tai = some a
  pgPlmn : y.plmnId = dp
  pgTai : y.tai = d

theorem found_iff {p q : Json} {dp dq : jsonb.Doc} {x : AvailabilityRecord}
    {y : PgAvailability jsonb} (hp : OneKey jsonb p q dp dq) (ha : OneKey jsonb a b d e)
    (h : Stored p a dp d x y) :
    AvailabilityRepo.At (some q) (some b) x = PgAvailability.At dq e y ∧
      AvailabilityRepo.At (some q) (some b) x = (Json.compare q p && Json.compare b a) := by
  obtain ⟨hmemPlmn, hmemTai, hpgPlmn, hpgTai⟩ := h
  rw [AvailabilityRepo.At, PgAvailability.At, hmemPlmn, hmemTai, hpgPlmn, hpgTai,
    ← Bool.eq_iff_iff.2 hp.mem_iff_pg, ← Bool.eq_iff_iff.2 ha.mem_iff_pg,
    ← Bool.eq_iff_iff.2 hp.mem_iff_filter, ← Bool.eq_iff_iff.2 ha.mem_iff_filter]
  exact ⟨rfl, rfl⟩

/-- One notion of a tracking area: exactly for the trees that nothing mistakes for one another.
Where it holds, a row stored under one tree is found and matched by the other everywhere or
nowhere. -/
theorem one_identity_iff (ha : a.Proper) (hb : b.Proper) (hd : jsonb.cast a.printText = some d)
    (he : jsonb.cast b.printText = some e) :
    (OneKey jsonb a b d e ↔ Unmistaken a b) ∧
      (Unmistaken a b → ∀ p q dp dq x y, OneKey jsonb p q dp dq → Stored p a dp d x y →
        AvailabilityRepo.At (some q) (some b) x = PgAvailability.At dq e y ∧
          ∀ ms ev, findMember ms "tai" = some b → ev.tai = some a →
            Yields (Subscription.filterMatchesEvent (some (.object ms)) ev)
              (sameText (some a) (some b))) := by
  refine ⟨oneKey_iff ha hb hd he, fun h p q dp dq x y hp hstored => ?_⟩
  have hkey := (oneKey_iff ha hb hd he).2 h
  refine ⟨(found_iff hp hkey hstored).1, fun ms ev hms hev => ?_⟩
  rw [Bool.eq_iff_iff.2 hkey.mem_iff_filter]
  exact filterMatchesEvent_tai hms hev

section sample

theorem value_eq_of_printText (ha : a.Proper) (hb : b.Proper) (h : a.printText = b.printText) :
    a.value = b.value := by
  rw [← value_written a, (printText_eq_iff ha.nulFree hb.nulFree).1 h, value_written b]

open Classical in
/-- The tree that was printed, where there is one. -/
noncomputable def printedTree (text : String) : Option Json :=
  if h : ∃ j : Json, j.Proper ∧ j.printText = text then some h.choose else none

theorem value_printedTree (ha : a.Proper) (h : printedTree a.printText = some b) :
    b.value = a.value := by
  have hexists : ∃ j : Json, j.Proper ∧ j.printText = a.printText := ⟨a, ha, rfl⟩
  rw [printedTree, dif_pos hexists] at h
  obtain rfl := Option.some.inj h
  exact value_eq_of_printText hexists.choose_spec.1 ha hexists.choose_spec.2

theorem exists_printedTree (ha : a.Proper) : ∃ b, printedTree a.printText = some b :=
  ⟨_, dif_pos ⟨a, ha, rfl⟩⟩

open Classical in
/-- A column that keeps the tree that was printed and compares contents. -/
noncomputable def keptJsonb : Jsonb where
  Doc := Json
  cast := printedTree
  same d e := decide (d.value.canonical = e.value.canonical)
  text := printText
  same_iff ha hb hd he := by
    rw [decide_eq_true_eq, value_printedTree ha hd, value_printedTree hb he]

/-- The tracking area `000001` of the PLMN 450-05, its members in a given order. -/
def areaListed : Json :=
  .object [("plmnId", .object [("mcc", .string "450"), ("mnc", .string "05")]),
    ("tac", .string "000001")]

def areaReordered : Json :=
  .object [("tac", .string "000001"),
    ("plmnId", .object [("mcc", .string "450"), ("mnc", .string "05")])]

theorem proper_areaListed : areaListed.Proper :=
  ⟨proper_word rfl, ⟨proper_word rfl, proper_word rfl, proper_word rfl, proper_word rfl, trivial⟩,
    proper_word rfl, proper_word rfl, trivial⟩

theorem proper_areaReordered : areaReordered.Proper :=
  ⟨proper_word rfl, proper_word rfl, proper_word rfl,
    ⟨proper_word rfl, proper_word rfl, proper_word rfl, proper_word rfl, trivial⟩, trivial⟩

theorem one_identity_listed : ∃ d : keptJsonb.Doc, OneKey keptJsonb areaListed areaListed d d := by
  obtain ⟨d, hd⟩ := exists_printedTree proper_areaListed
  refine ⟨d, (one_identity_iff proper_areaListed proper_areaListed hd hd).1.2 fun _ => ?_⟩
  exact ⟨rfl, compare_self_iff.1 (by decide)⟩

/-- An NF stored under the one spelling is not found by a query for the other, which
PostgreSQL and the filter of a subscription take for the same. -/
theorem reordered_area_not_found :
    areaListed.Proper ∧ areaReordered.Proper ∧
      Rearranged areaListed.value areaReordered.value ∧
      Json.compare areaReordered areaListed = true ∧
      Prog.result? (AvailabilityRepo.memFindForPlmnTai
        ⟨[{ id := "nf", plmnId := some (.string "p"), tai := some areaListed }]⟩
        (some (.string "p")) (some areaReordered)) Env.quiet = some (some []) := by
  refine ⟨proper_areaListed, proper_areaReordered, .moved [] [] _ _ (by decide), by decide, ?_⟩
  decide

end sample

end PgRepo

end Nssf
