import Nssf.Base.Paired
import Nssf.Base.WholeNumbers
import Nssf.Json.Written

/-! The records that are generated from the interface, and their way to a JSON tree and back. All
are written and read by one pattern, field after field, and a record is its list of fields. -/

namespace Nssf.Generated

open Base

/-- A C string. -/
abbrev Text := { s : String // Json.NulFree s }

/-- A C `int`. -/
abbrev CInt := { n : ℤ // -2 ^ 31 ≤ n ∧ n < 2 ^ 31 }

def CInt.zero : CInt := ⟨0, by decide⟩

def CInt.one : CInt := ⟨1, by decide⟩

mutual

inductive Kind where
  | string
  | number
  | bool
  | model (s : Schema)
  | models (s : Schema)
  | strings
  | numbers

/-- The fields of a record in their order, each with its name in JSON and whether it must be
there. -/
inductive Schema where
  | nil
  | field (name : String) (required : Bool) (kind : Kind) (rest : Schema)

end

mutual

/-- The C type of a field. A pointer may be null, and so may the elements of a list of records. -/
def Kind.Val : Kind → Type
  | .string => Option Text
  | .number => CInt
  | .bool => CInt
  | .model s => Option s.Val
  | .models s => Option (List (Option s.Val))
  | .strings => Option (List Text)
  | .numbers => Option (List Binary64)

def Schema.Val : Schema → Type
  | .nil => Unit
  | .field _ _ kind rest => kind.Val × rest.Val

end

/-- Why a function does not return a record or a node. With `failed` it returns null, the others
are faults: a null element that is read, and a name looked up in an array. -/
inductive Stop where
  | failed
  | nullElement
  | nullName
  deriving DecidableEq

/-- A record without fields is not looked at, so it may be null. -/
def Schema.nullToJson : Schema → Except Stop Json
  | .nil => .ok (.object [])
  | .field _ _ _ _ => .error .nullElement

mutual

/-- The node of a field, and none for what is null or zero. -/
def Kind.toJson : (kind : Kind) → kind.Val → Except Stop (Option Json)
  | .string, (v : Option Text) => .ok (v.map fun s => .string s.1)
  | .number, (n : CInt) => .ok (if n.1 = 0 then none else some (.number (Binary64.ofInt n.1)))
  | .bool, (n : CInt) => .ok (if n.1 = 0 then none else some (.bool true))
  | .model s, (v : Option s.Val) =>
    match v with
    | none => .ok none
    | some v => (s.members v).map fun ms => some (.object ms)
  | .models s, (v : Option (List (Option s.Val))) =>
    match v with
    | none => .ok none
    | some vs =>
      (vs.mapM fun v : Option s.Val => v.elim s.nullToJson fun v => (s.members v).map .object).map
        fun js => some (.array js)
  | .strings, (v : Option (List Text)) =>
    .ok (v.map fun ss => .array (ss.map fun s => .string s.1))
  | .numbers, (v : Option (List Binary64)) =>
    .ok (v.map fun ds => .array (ds.map .number))

def Schema.members : (s : Schema) → s.Val → Except Stop (List (String × Json))
  | .nil, _ => .ok []
  | .field name required kind rest, v => do
    match ← kind.toJson v.1 with
    | none => if required then .error .failed else rest.members v.2
    | some j => return (name, j) :: (← rest.members v.2)

end

def Schema.convertToJson (s : Schema) (v : s.Val) : Except Stop Json :=
  (s.members v).map .object

/-- `cJSON_GetObjectItemCaseSensitive`. -/
def lookup (node : Json) (name : String) : Except Stop (Option Json) :=
  match node with
  | .array (_ :: _) => .error .nullName
  | j => .ok (j.member? name)

/-- A function that returns null. -/
def orNull {α : Type} : Except Stop α → Except Stop (Option α)
  | .ok a => .ok (some a)
  | .error .failed => .ok none
  | .error x => .error x

theorem nulFree_cut (s : String) : Json.NulFree (String.ofList (Json.cutAtNul s.toList)) := by
  intro h
  rw [String.toList_ofList] at h
  simpa using List.mem_takeWhile_imp h

/-- `strdup` of the text of a node. -/
def strdup (s : String) : Text := ⟨String.ofList (Json.cutAtNul s.toList), nulFree_cut s⟩

theorem toInt32_fits (d : Binary64) : -2 ^ 31 ≤ d.toInt32 ∧ d.toInt32 < 2 ^ 31 := by
  simp only [Binary64.toInt32]
  split <;> omega

/-- A double that is put into an `int`. -/
def CInt.ofDouble (d : Binary64) : CInt := ⟨d.toInt32, toInt32_fits d⟩

def stringOf : Json → Except Stop Text
  | .string s => .ok (strdup s)
  | _ => .error .failed

def doubleOf : Json → Except Stop Binary64
  | .number d => .ok d
  | _ => .error .failed

/-- What a field is when the member is not there. -/
def Kind.absent : (kind : Kind) → kind.Val
  | .string => (none : Option Text)
  | .number => CInt.zero
  | .bool => CInt.zero
  | .model s => (none : Option s.Val)
  | .models s => (none : Option (List (Option s.Val)))
  | .strings => (none : Option (List Text))
  | .numbers => (none : Option (List Binary64))

mutual

/-- The field that a member makes. Only an optional string may be `null`, and a record inside the
record may fail on its own. -/
def Kind.ofNode : (kind : Kind) → Bool → Json → Except Stop kind.Val
  | .string, required, j =>
    if j.isNull && !required then .ok (none : Option Text) else (stringOf j).map some
  | .number, _, j => (doubleOf j).map CInt.ofDouble
  | .bool, _, j =>
    match j with
    | .bool b => .ok (if b then CInt.one else CInt.zero)
    | _ => .error .failed
  | .model s, _, j => orNull (s.parseFromJson j)
  | .models s, _, j =>
    match j with
    | .array js =>
      let element (j : Json) := if j.isObject then orNull (s.parseFromJson j) else .error .failed
      (js.mapM element).map some
    | _ => .error .failed
  | .strings, _, j =>
    match j with
    | .array js => (js.mapM stringOf).map some
    | _ => .error .failed
  | .numbers, _, j =>
    match j with
    | .array js => (js.mapM doubleOf).map some
    | _ => .error .failed

def Schema.parseFromJson : (s : Schema) → Json → Except Stop s.Val
  | .nil, _ => .ok ()
  | .field name required kind rest, j => do
    match ← lookup j name with
    | none => if required then .error .failed else return (kind.absent, ← rest.parseFromJson j)
    | some node => return (← kind.ofNode required node, ← rest.parseFromJson j)

end

def Schema.nullKept : (s : Schema) → Option s.Val
  | .nil => some ()
  | .field _ _ _ _ => none

mutual

/-- What is left of a field behind its text: a truth value is one or zero, and a record without
fields is there. -/
def Kind.kept : (kind : Kind) → kind.Val → kind.Val
  | .string, v => v
  | .number, n => n
  | .bool, (n : CInt) => if n.1 = 0 then CInt.zero else CInt.one
  | .model s, (v : Option s.Val) => v.map s.kept
  | .models s, (v : Option (List (Option s.Val))) =>
    v.map fun vs => vs.map fun x => x.elim s.nullKept fun x => some (s.kept x)
  | .strings, v => v
  | .numbers, v => v

def Schema.kept : (s : Schema) → s.Val → s.Val
  | .nil, v => v
  | .field _ _ kind rest, v => (kind.kept v.1, rest.kept v.2)

end

def Schema.names : Schema → List String
  | .nil => []
  | .field name _ _ rest => name :: rest.names

mutual

def Kind.wellNamed : Kind → Bool
  | .model s => s.wellNamed
  | .models s => s.wellNamed
  | _ => true

/-- The names of a record are plain words, and no two are the same. -/
def Schema.wellNamed : Schema → Bool
  | .nil => true
  | .field name _ kind rest =>
    Json.isWord name.toList && !rest.names.contains name && kind.wellNamed && rest.wellNamed

end

mutual

def Kind.depth : Kind → ℕ
  | .model s => s.depth + 1
  | .models s => s.depth + 2
  | .strings => 1
  | .numbers => 1
  | _ => 0

def Schema.depth : Schema → ℕ
  | .nil => 0
  | .field _ _ kind rest => max kind.depth rest.depth

end

mutual

def Kind.Printable : (kind : Kind) → kind.Val → Prop
  | .model s, (v : Option s.Val) => ∀ x, v = some x → s.Printable x
  | .models s, (v : Option (List (Option s.Val))) =>
    ∀ xs, v = some xs → ∀ x, some x ∈ xs → s.Printable x
  | .numbers, (v : Option (List Binary64)) => ∀ ds, v = some ds → ∀ d ∈ ds, d.isInf = false
  | _, _ => True

/-- No double of the record is infinite. -/
def Schema.Printable : (s : Schema) → s.Val → Prop
  | .nil, _ => True
  | .field _ _ kind rest, v => kind.Printable v.1 ∧ rest.Printable v.2

end

section reading

variable {s : Schema} {ms : List (String × Json)}

theorem strdup_text (s : Text) : strdup s.1 = s := by
  apply Subtype.ext
  have hcut : Json.cutAtNul s.1.toList = s.1.toList := by
    refine List.takeWhile_eq_self_iff.2 fun c hc => ?_
    rw [bne_iff_ne]
    rintro rfl
    exact s.2 hc
  change String.ofList (Json.cutAtNul s.1.toList) = s.1
  rw [hcut, String.ofList_toList]

theorem ofDouble_ofInt (n : CInt) : CInt.ofDouble (Binary64.ofInt n.1) = n :=
  Subtype.ext (Binary64.toInt32_ofInt n.2.1 n.2.2)

theorem zero_of_val {n : CInt} (h : n.1 = 0) : CInt.zero = n := Subtype.ext h.symm

theorem ok_bind {α β : Type} (a : α) (f : α → Except Stop β) : (Except.ok a >>= f) = f a := rfl

theorem bind_ok {α β : Type} {x : Except Stop α} {f : α → Except Stop β} {b : β}
    (h : (x >>= f) = .ok b) : ∃ a, x = .ok a ∧ f a = .ok b := by
  cases x with
  | error e => cases h
  | ok a => exact ⟨a, rfl, h⟩

/-- A field is left out or it is the first member. -/
theorem members_field {name : String} {required : Bool} {kind : Kind} {rest : Schema}
    {v : (Schema.field name required kind rest).Val}
    (h : (Schema.field name required kind rest).members v = .ok ms) :
    kind.toJson v.1 = .ok none ∧ required = false ∧ rest.members v.2 = .ok ms ∨
      ∃ j later, kind.toJson v.1 = .ok (some j) ∧ rest.members v.2 = .ok later ∧
        ms = (name, j) :: later := by
  rw [Schema.members] at h
  obtain ⟨node, hnode, h⟩ := bind_ok h
  cases node with
  | none =>
    cases required with
    | true => cases h
    | false => exact .inl ⟨hnode, rfl, h⟩
  | some j =>
    obtain ⟨later, hlater, h⟩ := bind_ok h
    cases h
    exact .inr ⟨j, later, hnode, hlater, rfl⟩

/-- The members of a record are of its names. -/
theorem names_members : ∀ (s : Schema) {v : s.Val} {ms : List (String × Json)},
    s.members v = .ok ms → ∀ m ∈ ms, m.1 ∈ s.names
  | .nil, _, _, h => by
    cases h
    exact List.forall_mem_nil _
  | .field name required kind rest, v, ms, h => by
    rcases members_field h with ⟨-, -, hrest⟩ | ⟨j, later, -, hrest, rfl⟩
    · exact fun m hm => List.mem_cons_of_mem _ (names_members rest hrest m hm)
    · rw [List.forall_mem_cons]
      exact ⟨List.mem_cons_self, fun m hm => List.mem_cons_of_mem _ (names_members rest hrest m hm)⟩

theorem map_ok {α β : Type} {x : Except Stop α} {f : α → β} {b : β} (h : x.map f = .ok b) :
    ∃ a, x = .ok a ∧ f a = b := by
  cases x with
  | error e => cases h
  | ok a => exact ⟨a, rfl, Except.ok.inj h⟩

theorem eq_zero_of_none {n : ℤ} {j : Json} (h : (if n = 0 then none else some j) = none) :
    n = 0 := by
  by_cases hzero : n = 0
  · exact hzero
  · rw [if_neg hzero] at h
    cases h

theorem eq_of_some {n : ℤ} {j j' : Json} (h : (if n = 0 then none else some j) = some j') :
    n ≠ 0 ∧ j = j' := by
  by_cases hzero : n = 0
  · rw [if_pos hzero] at h
    cases h
  · rw [if_neg hzero] at h
    exact ⟨hzero, Option.some.inj h⟩

/-- A null or zero field reads back from a member that is not there. -/
theorem absent_kept : ∀ (kind : Kind) {v : kind.Val}, kind.toJson v = .ok none →
    kind.absent = kind.kept v
  | .string, v, h => by
    cases v with
    | none => rfl
    | some s => cases h
  | .number, v, h => zero_of_val (eq_zero_of_none (Except.ok.inj h))
  | .bool, v, h => by
    have hzero : v.1 = 0 := eq_zero_of_none (Except.ok.inj h)
    change CInt.zero = if v.1 = 0 then CInt.zero else CInt.one
    rw [if_pos hzero]
  | .model s, v, h => by
    cases v with
    | none => rfl
    | some v =>
      obtain ⟨ms, -, hms⟩ := map_ok h
      cases hms
  | .models s, v, h => by
    cases v with
    | none => rfl
    | some vs =>
      obtain ⟨js, -, hjs⟩ := map_ok h
      cases hjs
  | .strings, v, h => by
    cases v with
    | none => rfl
    | some s => cases h
  | .numbers, v, h => by
    cases v with
    | none => rfl
    | some s => cases h

theorem findMember_cons (name : String) (j : Json) (ms : List (String × Json)) :
    Json.findMember ((name, j) :: ms) name = some j := by
  simp [Json.findMember]

theorem findMember_tail {name k : String} (h : k ≠ name) (j : Json) (ms : List (String × Json)) :
    Json.findMember ((name, j) :: ms) k = Json.findMember ms k := by
  have hne : (name == k) = false := by simpa using h.symm
  simp [Json.findMember, hne]

theorem findMember_not_mem {ms : List (String × Json)} {k : String} (h : k ∉ ms.map Prod.fst) :
    Json.findMember ms k = none := by
  rw [Json.findMember, Option.map_eq_none_iff, List.find?_eq_none]
  intro m hm heq
  exact h (List.mem_map.2 ⟨m, hm, eq_of_beq heq⟩)

mutual

theorem ofNode_kept : ∀ (kind : Kind) {v : kind.Val} {j : Json} (required : Bool),
    kind.wellNamed = true → kind.toJson v = .ok (some j) →
    kind.ofNode required j = .ok (kind.kept v)
  | .string, v, j, required, _, h => by
    cases v with
    | none => cases h
    | some s =>
      cases h
      change (.ok (some (strdup s.1)) : Except Stop (Option Text)) = .ok (some s)
      rw [strdup_text]
  | .number, v, j, required, _, h => by
    obtain ⟨-, rfl⟩ := eq_of_some (Except.ok.inj h)
    exact congrArg Except.ok (ofDouble_ofInt v)
  | .bool, v, j, required, _, h => by
    obtain ⟨hne, rfl⟩ := eq_of_some (Except.ok.inj h)
    change (.ok CInt.one : Except Stop CInt) = .ok (if v.1 = 0 then CInt.zero else CInt.one)
    rw [if_neg hne]
  | .model s, v, j, required, hnamed, h => by
    cases v with
    | none => cases h
    | some v =>
      obtain ⟨ms, hms, hj⟩ := map_ok h
      cases hj
      have hread := parse_kept s hnamed hms fun k _ => rfl
      change orNull (s.parseFromJson (.object ms)) = .ok (some (s.kept v))
      rw [hread]
      rfl
  | .models s, v, j, required, hnamed, h => by
    cases v with
    | none => cases h
    | some vs =>
      obtain ⟨js, hjs, hj⟩ := map_ok h
      cases hj
      have hback := mapM_back (fun x _ j hx => element_kept s hnamed hx) hjs
      change (js.mapM fun j : Json =>
        if j.isObject then orNull (s.parseFromJson j) else .error .failed).map some = _
      rw [hback]
      rfl
  | .strings, v, j, required, _, h => by
    cases v with
    | none => cases h
    | some ss =>
      cases h
      have hback : (ss.map fun s => Json.string s.1).mapM stringOf = .ok ss :=
        @mapM_map_ok Stop Text Json (fun s => .string s.1) stringOf
          (fun s => congrArg Except.ok (strdup_text s)) ss
      change ((ss.map fun s => Json.string s.1).mapM stringOf).map some = _
      rw [hback]
      rfl
  | .numbers, v, j, required, _, h => by
    cases v with
    | none => cases h
    | some ds =>
      cases h
      have hback : (ds.map Json.number).mapM doubleOf = .ok ds :=
        @mapM_map_ok Stop Binary64 Json .number doubleOf (fun _ => rfl) ds
      change ((ds.map Json.number).mapM doubleOf).map some = _
      rw [hback]
      rfl

theorem element_kept : ∀ (s : Schema) {x : Option s.Val} {j : Json}, s.wellNamed = true →
    x.elim s.nullToJson (fun v => (s.members v).map .object) = .ok j →
    (if j.isObject then orNull (s.parseFromJson j) else .error .failed) =
      .ok (x.elim s.nullKept fun v => some (s.kept v))
  | .nil, none, j, _, h => by
    cases h
    rfl
  | .field _ _ _ _, none, j, _, h => by cases h
  | s, some v, j, hnamed, h => by
    obtain ⟨ms, hms, rfl⟩ := map_ok h
    have hread := parse_kept s hnamed hms fun k _ => rfl
    change orNull (s.parseFromJson (.object ms)) = .ok (some (s.kept v))
    rw [hread]
    rfl

/-- What the members of a record are read into, in any object that shows them so. -/
theorem parse_kept : ∀ (s : Schema) {v : s.Val} {ms ms' : List (String × Json)},
    s.wellNamed = true → s.members v = .ok ms →
    (∀ k ∈ s.names, Json.findMember ms' k = Json.findMember ms k) →
    s.parseFromJson (.object ms') = .ok (s.kept v)
  | .nil, _, _, _, _, _, _ => rfl
  | .field name required kind rest, v, ms, ms', hnamed, h, hshow => by
    simp only [Schema.wellNamed, Bool.and_eq_true, Bool.not_eq_true', List.contains_eq_mem,
      decide_eq_false_iff_not] at hnamed
    obtain ⟨⟨⟨-, hfresh⟩, hkind⟩, hrest⟩ := hnamed
    have hfirst := hshow name List.mem_cons_self
    have hlater (k : String) (hk : k ∈ rest.names) := hshow k (List.mem_cons_of_mem _ hk)
    rcases members_field h with ⟨hnone, hopt, hms⟩ | ⟨j, later, hnode, hms, rfl⟩
    · have hparse := parse_kept rest hrest hms hlater
      have hgone : Json.findMember ms name = none := by
        refine findMember_not_mem fun hmem => hfresh ?_
        obtain ⟨m, hm, rfl⟩ := List.mem_map.1 hmem
        exact names_members rest hms m hm
      rw [hgone] at hfirst
      simp only [Schema.parseFromJson, lookup, Json.member?, hfirst, ok_bind, hparse, hopt,
        absent_kept kind hnone]
      rfl
    · have hne (k : String) (hk : k ∈ rest.names) : k ≠ name := fun heq => hfresh (heq ▸ hk)
      have hparse := parse_kept rest hrest hms fun k hk =>
        (hlater k hk).trans (findMember_tail (hne k hk) j later)
      have hread := ofNode_kept kind required hkind hnode
      rw [findMember_cons] at hfirst
      simp only [Schema.parseFromJson, lookup, Json.member?, hfirst, ok_bind, hparse, hread]
      rfl

end

end reading

/-- A tree that its text is read back as. -/
structure Plain (n : ℕ) (j : Json) : Prop where
  strings : Json.AllStrings Json.NulFree j
  written : Json.written j = j
  depth : j.depth ≤ n

section printing

variable {n : ℕ}

theorem Plain.le {m : ℕ} {j : Json} (h : Plain n j) (hle : n ≤ m) : Plain m j :=
  ⟨h.strings, h.written, h.depth.trans hle⟩

theorem plain_array {js : List Json} (h : ∀ j ∈ js, Plain n j) : Plain (n + 1) (.array js) := by
  have hitems : Json.AllItems Json.NulFree js ∧ Json.writtenItems js = js ∧
      Json.depthItems js ≤ n := by
    induction js with
    | nil => exact ⟨trivial, rfl, Nat.zero_le n⟩
    | cons j js ih =>
      obtain ⟨hstrings, hwritten, hdepth⟩ := ih fun k hk => h k (List.mem_cons_of_mem _ hk)
      have hj := h j List.mem_cons_self
      refine ⟨⟨hj.strings, hstrings⟩, ?_, max_le hj.depth hdepth⟩
      rw [Json.writtenItems, hj.written, hwritten]
  exact ⟨hitems.1, congrArg Json.array hitems.2.1, Nat.succ_le_succ hitems.2.2⟩

theorem plain_object {ms : List (String × Json)}
    (h : ∀ m ∈ ms, Json.NulFree m.1 ∧ Plain n m.2) : Plain (n + 1) (.object ms) := by
  have hmembers : Json.AllMembers Json.NulFree ms ∧ Json.writtenMembers ms = ms ∧
      Json.depthMembers ms ≤ n := by
    induction ms with
    | nil => exact ⟨trivial, rfl, Nat.zero_le n⟩
    | cons m ms ih =>
      obtain ⟨hstrings, hwritten, hdepth⟩ := ih fun k hk => h k (List.mem_cons_of_mem _ hk)
      have hm := h m List.mem_cons_self
      refine ⟨⟨hm.1, hm.2.strings, hstrings⟩, ?_, max_le hm.2.depth hdepth⟩
      rw [Json.writtenMembers, hm.2.written, hwritten]
  exact ⟨hmembers.1, congrArg Json.object hmembers.2.1, Nat.succ_le_succ hmembers.2.2⟩

theorem plain_number {d : Binary64} (h : d.isInf = false) : Plain n (.number d) :=
  ⟨trivial, by simp [Json.written, h], Nat.zero_le n⟩

theorem plain_string (s : Text) : Plain n (.string s.1) := ⟨s.2, rfl, Nat.zero_le n⟩

mutual

theorem plain_node : ∀ (kind : Kind) {v : kind.Val} {j : Json}, kind.wellNamed = true →
    kind.Printable v → kind.toJson v = .ok (some j) → Plain kind.depth j
  | .string, v, j, _, _, h => by
    cases v with
    | none => cases h
    | some s =>
      cases h
      exact plain_string s
  | .number, v, j, _, _, h => by
    obtain ⟨-, rfl⟩ := eq_of_some (Except.ok.inj h)
    have hrange := v.2
    exact plain_number (Binary64.isInf_ofInt (by omega))
  | .bool, v, j, _, _, h => by
    obtain ⟨-, rfl⟩ := eq_of_some (Except.ok.inj h)
    exact ⟨trivial, rfl, Nat.zero_le _⟩
  | .model s, v, j, hnamed, hp, h => by
    cases v with
    | none => cases h
    | some v =>
      obtain ⟨ms, hms, hj⟩ := map_ok h
      cases hj
      exact plain_object (plain_members s hnamed (hp v rfl) hms)
  | .models s, v, j, hnamed, hp, h => by
    cases v with
    | none => cases h
    | some vs =>
      obtain ⟨js, hjs, hj⟩ := map_ok h
      cases hj
      refine plain_array fun j hj => ?_
      obtain ⟨x, hx, hrun⟩ := exists_of_mem (mapM_ok hjs).flip hj
      cases x with
      | none =>
        cases s with
        | nil =>
          cases hrun
          exact plain_object (List.forall_mem_nil _)
        | field => cases hrun
      | some v =>
        obtain ⟨ms, hms, rfl⟩ := map_ok hrun
        exact plain_object (plain_members s hnamed (hp vs rfl v hx) hms)
  | .strings, v, j, _, _, h => by
    cases v with
    | none => cases h
    | some ss =>
      cases h
      refine plain_array fun j hj => ?_
      obtain ⟨s, -, rfl⟩ := List.mem_map.1 hj
      exact plain_string s
  | .numbers, v, j, _, hp, h => by
    cases v with
    | none => cases h
    | some ds =>
      cases h
      refine plain_array fun j hj => ?_
      obtain ⟨d, hd, rfl⟩ := List.mem_map.1 hj
      exact plain_number (hp ds rfl d hd)

theorem plain_members : ∀ (s : Schema) {v : s.Val} {ms : List (String × Json)},
    s.wellNamed = true → s.Printable v → s.members v = .ok ms →
    ∀ m ∈ ms, Json.NulFree m.1 ∧ Plain s.depth m.2
  | .nil, _, _, _, _, h => by
    cases h
    exact List.forall_mem_nil _
  | .field name required kind rest, v, ms, hnamed, hp, h => by
    simp only [Schema.wellNamed, Bool.and_eq_true] at hnamed
    obtain ⟨⟨⟨hword, -⟩, hkind⟩, hrest⟩ := hnamed
    have hlater {later : List (String × Json)} (hms : rest.members v.2 = .ok later) :
        ∀ m ∈ later, Json.NulFree m.1 ∧ Plain (max kind.depth rest.depth) m.2 := fun m hm =>
      (plain_members rest hrest hp.2 hms m hm).imp_right fun hm => hm.le (le_max_right _ _)
    rcases members_field h with ⟨-, -, hms⟩ | ⟨j, later, hnode, hms, rfl⟩
    · exact hlater hms
    · have hj := (plain_node kind hkind hp.1 hnode).le (le_max_left kind.depth rest.depth)
      exact List.forall_mem_cons.2 ⟨⟨(Json.proper_word hword).1, hj⟩, hlater hms⟩

end

end printing

section stable

theorem orNull_ok {α : Type} {x : Except Stop α} {v : Option α} (h : orNull x = .ok v) :
    ∀ a, v = some a → x = .ok a := by
  intro a ha
  subst ha
  cases x with
  | ok b =>
    cases h
    rfl
  | error e => cases e <;> cases h

theorem absent_fixed (kind : Kind) : kind.kept kind.absent = kind.absent := by
  cases kind <;> rfl

theorem one_fixed : (if CInt.one.1 = 0 then CInt.zero else CInt.one) = CInt.one := rfl

/-- A field is absent or it was read. -/
theorem parse_field {name : String} {required : Bool} {kind : Kind} {rest : Schema} {j : Json}
    {v : (Schema.field name required kind rest).Val}
    (h : (Schema.field name required kind rest).parseFromJson j = .ok v) :
    (v.1 = kind.absent ∨ ∃ node, kind.ofNode required node = .ok v.1) ∧
      rest.parseFromJson j = .ok v.2 := by
  rw [Schema.parseFromJson] at h
  obtain ⟨node, -, h⟩ := bind_ok h
  cases node with
  | none =>
    cases required with
    | true => cases h
    | false =>
      obtain ⟨later, hlater, h⟩ := bind_ok h
      cases h
      exact ⟨.inl rfl, hlater⟩
  | some node =>
    obtain ⟨first, hfirst, h⟩ := bind_ok h
    obtain ⟨later, hlater, h⟩ := bind_ok h
    cases h
    exact ⟨.inr ⟨node, hfirst⟩, hlater⟩

theorem nullKept_of_read {s : Schema} {j : Json}
    (h : orNull (s.parseFromJson j) = .ok none) : s.nullKept = none := by
  cases s with
  | nil => cases h
  | field => rfl

mutual

theorem ofNode_fixed : ∀ (kind : Kind) {required : Bool} {j : Json} {v : kind.Val},
    kind.ofNode required j = .ok v → kind.kept v = v
  | .string, _, _, _, _ => rfl
  | .number, _, _, _, _ => rfl
  | .bool, _, j, v, h => by
    cases j with
    | bool b =>
      cases h
      cases b <;> rfl
    | _ => cases h
  | .model s, _, j, v, h => by
    cases v with
    | none => rfl
    | some v => exact congrArg some (parse_fixed s (orNull_ok h v rfl))
  | .models s, _, j, v, h => by
    cases j with
    | array js =>
      obtain ⟨vs, hvs, rfl⟩ := map_ok h
      refine congrArg some ((List.map_congr_left fun x hx => ?_).trans (List.map_id vs))
      obtain ⟨j, -, hread⟩ := exists_of_mem (mapM_ok hvs).flip hx
      have hobj : j.isObject = true := by
        by_contra hnot
        rw [if_neg hnot] at hread
        cases hread
      rw [if_pos hobj] at hread
      cases x with
      | none => exact nullKept_of_read hread
      | some v => exact congrArg some (parse_fixed s (orNull_ok hread v rfl))
    | _ => cases h
  | .strings, _, _, _, _ => rfl
  | .numbers, _, _, _, _ => rfl

theorem parse_fixed : ∀ (s : Schema) {j : Json} {v : s.Val}, s.parseFromJson j = .ok v →
    s.kept v = v
  | .nil, _, _, _ => rfl
  | .field name required kind rest, j, v, h => by
    obtain ⟨hfirst, hlater⟩ := parse_field h
    have hkept : kind.kept v.1 = v.1 := by
      rcases hfirst with habsent | ⟨node, hnode⟩
      · rw [habsent, absent_fixed]
      · exact ofNode_fixed kind hnode
    exact Prod.ext hkept (parse_fixed rest hlater)

end

end stable

end Nssf.Generated
