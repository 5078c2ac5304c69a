import Mathlib.Data.List.Forall2
import Nssf.Base.Paired
import Nssf.Base.PyValue

/-! The status reports of the design stages: checks, gates that need some of them, and the
overrides by which a person lets a gate pass over a failed check. A report is written anew by
every run of its script, and the overrides are read from the one before. -/

namespace Nssf.Design

open Base

inductive CheckStatus where
  | pass
  | fail
  | warn
  | notApplicable
  | notRun
  deriving DecidableEq

def CheckStatus.word : CheckStatus → String
  | pass => "PASS"
  | fail => "FAIL"
  | warn => "WARN"
  | notApplicable => "NOT_APPLICABLE"
  | notRun => "NOT_RUN"

structure Check where
  id : String
  tier : ℤ
  name : String
  criterion : String
  status : CheckStatus
  overridden : Bool
  current : String
  toPass : List String
  deriving DecidableEq

structure Gate where
  id : String
  requiresPass : List String
  status : CheckStatus
  blockedBy : List String
  deriving DecidableEq

/-- A gate and the checks it needs. -/
abbrev GateDef := String × List String

/-- How Python shows a value, by `str` and by `repr`. -/
structure Shows where
  str : PyValue → String
  repr : PyValue → String

namespace StatusGates

def byId (checks : List Check) : Dict String Check :=
  Dict.ofList (checks.map fun c => (c.id, c))

/-- What an entry of `pass_anyway` asks for: the id of a check, or why the entry is ignored. -/
inductive Asked where
  | override (id : String)
  | ignored (text : String)
  deriving DecidableEq

section overrides

variable (shows : Shows)

/-- A key that is no text is no id, and one that cannot be a key raises. -/
def askedFor (byId : Dict String Check) (cid : PyValue) : Except String Asked :=
  match cid with
  | .text id =>
    match byId.get? id with
    | none => .ok (.ignored (id ++ " (해당 check 없음)"))
    | some c =>
      if c.status = .fail then .ok (.override id)
      else .ok (.ignored (id ++ " (FAIL 아님 — override 불필요)"))
  | cid =>
    if cid.hashable then .ok (.ignored (shows.str cid ++ " (해당 check 없음)"))
    else .error "TypeError"

def asked (byId : Dict String Check) (entry : PyValue) : Except String Asked := do
  match entry with
  | .dict _ =>
    let cid ← entry.get "check"
    let reason ← entry.get "reason"
    let confirmedBy ← entry.get "confirmed_by"
    if cid.truthy && reason.truthy && confirmedBy.truthy then askedFor shows byId cid
    else
      return .ignored ((if cid.truthy then shows.str cid else shows.repr entry) ++
        " (check/reason/confirmed_by 필수)")
  | _ => return .ignored (shows.repr entry ++ " (dict 아님)")

structure Overridden where
  checks : List Check
  applied : List String
  ignored : List String

def Overridden.start (checks : List Check) : Overridden := ⟨checks, [], []⟩

/-- The check that the id stands for is the last one with it. -/
def markLast (id : String) (checks : List Check) : List Check :=
  match checks with
  | [] => []
  | c :: rest =>
    if c.id = id ∧ id ∉ rest.map Check.id then { c with overridden := true } :: rest
    else c :: markLast id rest

def Overridden.add (o : Overridden) : Asked → Overridden
  | .override id => { o with checks := markLast id o.checks, applied := o.applied ++ [id] }
  | .ignored text => { o with ignored := o.ignored ++ [text] }

def applyOverrides (checks : List Check) (raw : List PyValue) : Except String Overridden := do
  let answers ← raw.mapM (asked shows (byId checks))
  return answers.foldl Overridden.add (Overridden.start checks)

end overrides

def blocked (checks : List Check) (cid : String) : Option String :=
  match (byId checks).get? cid with
  | none => some (cid ++ " (check 미존재)")
  | some c => if c.status = .fail && !c.overridden then some cid else none

def computeGate (checks : List Check) (d : GateDef) : Gate :=
  let blockedBy := d.2.filterMap (blocked checks)
  ⟨d.1, d.2, if blockedBy.isEmpty then .pass else .fail, blockedBy⟩

def computeGates (defs : List GateDef) (checks : List Check) : List Gate :=
  defs.map (computeGate checks)

/-- The entry is complete and names the check. -/
def Names (entry : PyValue) (id : String) : Prop :=
  ∃ reason confirmedBy, entry.get "check" = .ok (.text id) ∧ id ≠ "" ∧
    entry.get "reason" = .ok reason ∧ reason.truthy = true ∧
    entry.get "confirmed_by" = .ok confirmedBy ∧ confirmedBy.truthy = true

/-- An entry that is complete but for a check that cannot be looked up stops the script. -/
def Usable (entry : PyValue) : Prop :=
  ∀ cid reason confirmedBy, entry.get "check" = .ok cid → entry.get "reason" = .ok reason →
    entry.get "confirmed_by" = .ok confirmedBy →
    cid.truthy = true → reason.truthy = true → confirmedBy.truthy = true → cid.hashable = true

section asking

variable {shows : Shows} {checks : List Check}

theorem get_byId (hn : (checks.map Check.id).Nodup) {id : String} {c : Check} :
    (byId checks).get? id = some c ↔ c ∈ checks ∧ c.id = id := by
  have hkeys : ((checks.map fun c => (c.id, c)).map Prod.fst).Nodup := by
    rw [List.map_map]
    exact hn
  rw [byId, Dict.get?_ofList_eq_some_iff]
  constructor
  · intro h
    obtain ⟨d, hd, heq⟩ := List.mem_map.1 h.mem
    cases heq
    exact ⟨hd, rfl⟩
  · rintro ⟨hc, rfl⟩
    exact Dict.last_of_mem hkeys (List.mem_map.2 ⟨c, hc, rfl⟩)

theorem names_dict {entry : PyValue} {id : String} (h : Names entry id) :
    ∃ entries, entry = .dict entries := by
  obtain ⟨reason, confirmedBy, hget, -⟩ := h
  cases entry with
  | dict entries => exact ⟨entries, rfl⟩
  | _ => cases hget

theorem askedFor_override_iff (hn : (checks.map Check.id).Nodup) {cid : PyValue} {id : String} :
    askedFor shows (byId checks) cid = .ok (.override id) ↔
      cid = .text id ∧ ∃ c ∈ checks, c.id = id ∧ c.status = .fail := by
  cases cid with
  | text s =>
    simp only [askedFor, PyValue.text.injEq]
    cases hget : (byId checks).get? s with
    | none =>
      refine iff_of_false (fun h => (by cases h)) ?_
      rintro ⟨rfl, c, hc, hid, -⟩
      rw [(get_byId hn).2 ⟨hc, hid⟩] at hget
      cases hget
    | some c =>
      obtain ⟨hc, hid⟩ := (get_byId hn).1 hget
      by_cases hfail : c.status = .fail
      · simp only [hfail, if_true, Except.ok.injEq, Asked.override.injEq]
        constructor
        · rintro rfl
          exact ⟨rfl, c, hc, hid, hfail⟩
        · exact And.left
      · simp only [hfail, if_false]
        refine iff_of_false (fun h => (by cases h)) ?_
        rintro ⟨rfl, d, hd, hdid, hdfail⟩
        have hsame := (get_byId hn).2 ⟨hd, hdid⟩
        rw [hget] at hsame
        cases hsame
        exact hfail hdfail
  | _ =>
    simp only [askedFor, reduceCtorEq, false_and, iff_false]
    split_ifs <;> simp

theorem asked_override_iff (hn : (checks.map Check.id).Nodup) {entry : PyValue} {id : String} :
    asked shows (byId checks) entry = .ok (.override id) ↔
      Names entry id ∧ ∃ c ∈ checks, c.id = id ∧ c.status = .fail := by
  cases entry with
  | dict entries =>
    simp only [asked, Names, PyValue.get, bind, Except.bind, pure, Except.pure, Except.ok.injEq,
      exists_eq_left', exists_and_left, Bool.and_eq_true]
    generalize (entries.lookup "check").getD .none = cid
    generalize (entries.lookup "reason").getD .none = reason
    generalize (entries.lookup "confirmed_by").getD .none = confirmedBy
    by_cases hcomplete :
        (cid.truthy = true ∧ reason.truthy = true) ∧ confirmedBy.truthy = true
    · rw [if_pos hcomplete, askedFor_override_iff hn]
      obtain ⟨⟨hcid, hreason⟩, hby⟩ := hcomplete
      constructor
      · rintro ⟨rfl, hcheck⟩
        exact ⟨⟨rfl, by simpa [PyValue.truthy] using hcid, hreason, hby⟩, hcheck⟩
      · rintro ⟨⟨hid, -⟩, hcheck⟩
        exact ⟨hid, hcheck⟩
    · rw [if_neg hcomplete]
      refine iff_of_false (fun h => (by cases h)) ?_
      rintro ⟨⟨rfl, hid, hreason, hby⟩, -⟩
      exact hcomplete ⟨⟨by simpa [PyValue.truthy] using hid, hreason⟩, hby⟩
  | _ =>
    refine iff_of_false (fun h => (by cases h)) fun h => ?_
    obtain ⟨entries, heq⟩ := names_dict h.1
    cases heq

theorem asked_ok (d : Dict String Check) {entry : PyValue} (h : Usable entry) :
    ∃ a, asked shows d entry = .ok a := by
  cases entry with
  | dict entries =>
    simp only [asked, PyValue.get, bind, Except.bind, Bool.and_eq_true]
    split
    · rename_i hcomplete
      have hhash := h _ _ _ rfl rfl rfl hcomplete.1.1 hcomplete.1.2 hcomplete.2
      generalize (entries.lookup "check").getD .none = cid at hhash
      cases cid with
      | text s =>
        simp only [askedFor]
        cases d.get? s with
        | none => exact ⟨_, rfl⟩
        | some c =>
          simp only
          split_ifs <;> exact ⟨_, rfl⟩
      | _ =>
        simp only [askedFor, hhash, if_true]
        exact ⟨_, rfl⟩
    · exact ⟨_, rfl⟩
  | _ => exact ⟨_, rfl⟩

end asking

/-- A check as the answers leave it. -/
def marked (answers : List Asked) (c : Check) : Check :=
  if .override c.id ∈ answers then { c with overridden := true } else c

section marking

variable {shows : Shows} {checks : List Check} {raw : List PyValue}

theorem id_marked (answers : List Asked) (c : Check) : (marked answers c).id = c.id := by
  rw [marked]
  split <;> rfl

theorem ids_marked (answers : List Asked) (checks : List Check) :
    (checks.map (marked answers)).map Check.id = checks.map Check.id := by
  rw [List.map_map]
  exact List.map_congr_left fun c _ => id_marked answers c

theorem map_marked_of_ignored {answers : List Asked} (h : ∀ id, .override id ∉ answers)
    (checks : List Check) : checks.map (marked answers) = checks := by
  have hid : checks.map (marked answers) = checks.map fun c => c :=
    List.map_congr_left fun c _ => if_neg (h c.id)
  rw [hid, List.map_id']

theorem markLast_eq (hn : (checks.map Check.id).Nodup) (id : String) :
    markLast id checks = checks.map (marked [.override id]) := by
  have hmarked (c : Check) : marked [.override id] c =
      if c.id = id then { c with overridden := true } else c := by
    simp [marked]
  induction checks with
  | nil => rfl
  | cons c rest ih =>
    rw [List.map_cons, List.nodup_cons] at hn
    rw [markLast, List.map_cons, hmarked]
    by_cases hid : c.id = id
    · have hout : id ∉ rest.map Check.id := by
        rw [← hid]
        exact hn.1
      rw [if_pos ⟨hid, hout⟩, if_pos hid]
      have hrest : rest.map (marked [.override id]) = rest.map fun d => d := by
        refine List.map_congr_left fun d hd => ?_
        rw [hmarked, if_neg]
        rintro rfl
        exact hout (List.mem_map_of_mem hd)
      rw [hrest, List.map_id']
    · rw [if_neg fun h => hid h.1, if_neg hid, ih hn.2]

theorem marked_marked (a : Asked) (answers : List Asked) (c : Check) :
    marked answers (marked [a] c) = marked (a :: answers) c := by
  simp only [marked, List.mem_cons]
  by_cases hhead : Asked.override c.id = a
  · simp [hhead]
  · simp [hhead]

theorem checks_foldl (answers : List Asked) (o : Overridden)
    (hn : (o.checks.map Check.id).Nodup) :
    (answers.foldl Overridden.add o).checks = o.checks.map (marked answers) := by
  induction answers generalizing o with
  | nil => exact (map_marked_of_ignored (fun _ => List.not_mem_nil) o.checks).symm
  | cons a answers ih =>
    have hadd : (o.add a).checks = o.checks.map (marked [a]) := by
      cases a with
      | override id => exact markLast_eq hn id
      | ignored text => exact (map_marked_of_ignored (by simp) o.checks).symm
    have hids : ((o.add a).checks.map Check.id).Nodup := by
      rw [hadd, ids_marked]
      exact hn
    rw [List.foldl_cons, ih _ hids, hadd, List.map_map]
    exact List.map_congr_left fun c _ => marked_marked a answers c

theorem exists_applyOverrides (h : ∀ e ∈ raw, Usable e) :
    ∃ o, applyOverrides shows checks raw = .ok o := by
  obtain ⟨answers, hanswers⟩ := exists_mapM fun e he => asked_ok (byId checks) (h e he)
  exact ⟨_, by rw [applyOverrides, hanswers]; rfl⟩

/-- The checks behind the overrides: a failed one is marked just when a complete entry names it. -/
theorem applyOverrides_spec (hn : (checks.map Check.id).Nodup) {o : Overridden}
    (h : applyOverrides shows checks raw = .ok o) :
    ∃ answers, o.checks = checks.map (marked answers) ∧
      ∀ id, .override id ∈ answers ↔
        (∃ e ∈ raw, Names e id) ∧ ∃ c ∈ checks, c.id = id ∧ c.status = .fail := by
  rw [applyOverrides] at h
  cases hanswers : raw.mapM (asked shows (byId checks)) with
  | error x =>
    rw [hanswers] at h
    cases h
  | ok answers =>
    rw [hanswers] at h
    cases h
    refine ⟨answers, checks_foldl answers (.start checks) hn, fun id => ?_⟩
    have hall := mapM_ok hanswers
    constructor
    · intro hid
      obtain ⟨e, he, hasked⟩ := exists_of_mem hall.flip hid
      obtain ⟨hnames, hcheck⟩ := (asked_override_iff hn).1 hasked
      exact ⟨⟨e, he, hnames⟩, hcheck⟩
    · rintro ⟨⟨e, he, hnames⟩, hcheck⟩
      obtain ⟨a, ha, hasked⟩ := exists_of_mem hall he
      rw [(asked_override_iff hn).2 ⟨hnames, hcheck⟩] at hasked
      cases hasked
      exact ha

/-- A required check does not block its gate. -/
def Clears (checks : List Check) (raw : List PyValue) (cid : String) : Prop :=
  ∃ c ∈ checks, c.id = cid ∧ (c.status = .fail → ∃ e ∈ raw, Names e cid)

theorem blocked_eq_none_iff (hn : (checks.map Check.id).Nodup)
    (hfresh : ∀ c ∈ checks, c.overridden = false) {o : Overridden}
    (h : applyOverrides shows checks raw = .ok o) {cid : String} :
    blocked o.checks cid = none ↔ Clears checks raw cid := by
  obtain ⟨answers, hchecks, hanswers⟩ := applyOverrides_spec hn h
  have hn' : (o.checks.map Check.id).Nodup := by
    rw [hchecks, ids_marked]
    exact hn
  rw [blocked]
  cases hget : (byId o.checks).get? cid with
  | none =>
    refine iff_of_false (by simp) ?_
    rintro ⟨c, hc, hid, -⟩
    have hmem : marked answers c ∈ o.checks := by
      rw [hchecks]
      exact List.mem_map_of_mem hc
    rw [(get_byId hn').2 ⟨hmem, (id_marked answers c).trans hid⟩] at hget
    cases hget
  | some d =>
    obtain ⟨hd, hid⟩ := (get_byId hn').1 hget
    rw [hchecks] at hd
    obtain ⟨c, hc, rfl⟩ := List.mem_map.1 hd
    rw [id_marked] at hid
    have hunique : ∀ c' ∈ checks, c'.id = cid → c' = c := fun c' hc' hid' =>
      List.inj_on_of_nodup_map hn hc' hc (hid'.trans hid.symm)
    have hblocks : ((marked answers c).status = .fail && !(marked answers c).overridden) = true ↔
        c.status = .fail ∧ .override cid ∉ answers := by
      rw [marked, hid]
      by_cases hmark : Asked.override cid ∈ answers
      · simp [hmark]
      · simp [hmark, hfresh c hc]
    have hnone : (if (marked answers c).status = .fail && !(marked answers c).overridden
        then some cid else none) = none ↔ ¬(c.status = .fail ∧ .override cid ∉ answers) := by
      rw [← hblocks]
      simp
    rw [hnone, hanswers]
    constructor
    · intro hclear
      refine ⟨c, hc, hid, fun hfail => ?_⟩
      by_contra hnone
      exact hclear ⟨hfail, fun h => hnone h.1⟩
    · rintro ⟨c', hc', hid', hclear⟩ ⟨hfail, hnot⟩
      rw [hunique c' hc' hid'] at hclear
      exact hnot ⟨hclear hfail, c, hc, hid, hfail⟩

end marking

end StatusGates

end Nssf.Design
