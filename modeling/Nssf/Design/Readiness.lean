import Mathlib
import Nssf.Design.StatusGates

/-! The signal to go: a stage script writes its report over the one before and keeps the overrides
that stand there, and the readiness of a network function is read off the reports of all stages. -/

namespace Nssf.Design.StatusGates

open Base

inductive ReportFile where
  | absent
  | unreadable (why : String)
  | doc (v : PyValue)

def texts (xs : List String) : PyValue := .list (xs.map .text)

def checkDoc (c : Check) : PyValue :=
  .dict ([("id", .text c.id), ("tier", .int c.tier), ("name", .text c.name),
      ("criterion", .text c.criterion), ("status", .text c.status.word)] ++
    (if c.overridden then [("overridden", .bool true)] else []) ++
    [("current", .text c.current), ("to_pass", texts c.toPass)])

def gateDoc (g : Gate) : PyValue :=
  .dict [("id", .text g.id), ("requires_pass", texts g.requiresPass),
    ("status", .text g.status.word), ("blocked_by", texts g.blockedBy)]

/-- One of the scripts that write a report with overrides. -/
structure StatusScript where
  stage : String
  targetSchema : String
  gateDefs : List GateDef
  distinct : (gateDefs.map Prod.fst).Nodup

def archStatus : StatusScript where
  stage := "architecture-design"
  targetSchema := "arch-status-v1"
  gateDefs := [("arch_consistent", ["arch_files_present", "arch_sections_exact",
    "module_decomposition_present", "module_sections_exact", "arch_frontmatter_valid"])]
  distinct := by decide

def implStatus : StatusScript where
  stage := "implementation-planning"
  targetSchema := "impl-status-v1"
  gateDefs := [
    ("impl_consistent", ["impl_files_present", "impl_sections_exact", "tasks_schema_valid",
      "impl_frontmatter_valid"]),
    ("impl_ready_for_codegen", ["readiness_pack_files_present",
      "api_matrix_covers_all_operations", "data_model_map_covers_all_contract_models",
      "all_work_items_have_expected_files", "all_work_items_have_tests",
      "all_work_items_have_verification_commands", "team_execution_plan_present",
      "phase_wi_coverage", "wi_depends_on_valid", "wi_phase_order_valid",
      "verification_plan_auto_complete", "human_review_pack_traceable", "gaps_classified",
      "blocker_gaps_zero", "no_spec_reread_required"])]
  distinct := by decide

def engStatus : StatusScript where
  stage := "engineering-design-freeze"
  targetSchema := "eng-status-v1"
  gateDefs := [("eng_frozen", ["eng_profile_valid", "eng_design_present", "eng_sections_exact",
    "eng_open_questions_empty", "eng_deferral_register_ok", "eng_inventory_covered",
    "eng_rows_well_formed", "eng_slot_typed_shape"])]
  distinct := by decide

/-- What a run finds in the repository; only the engineering stage has something advisory. -/
structure Findings where
  checks : List Check
  advisory : Option (String × PyValue)

section run

variable (shows : Shows)

def loadPrevPassAnyway : ReportFile → Except String (List PyValue)
  | .absent => .ok []
  | .unreadable _ => .ok []
  | .doc v => do
    let overrides ← (v.orElse (.dict [])).get "manual_overrides"
    let raw ← (overrides.orElse (.dict [])).get "pass_anyway"
    match raw.orElse (.list []) with
    | .list items => return items
    | _ => return []

def StatusScript.report (s : StatusScript) (nf : String) (found : Findings) (o : Overridden)
    (passAnyway : List PyValue) : PyValue :=
  .dict ([("nf", .text nf), ("stage", .text s.stage), ("target_schema", .text s.targetSchema),
      ("checks", .list (o.checks.map checkDoc)),
      ("gates", .list ((computeGates s.gateDefs o.checks).map gateDoc))] ++
    (found.advisory.map fun a => ("advisory", PyValue.dict [a])).toList ++
    [("manual_overrides", .dict [("pass_anyway", .list passAnyway)])])

def StatusScript.run (s : StatusScript) (nf : String) (found : Findings) (file : ReportFile) :
    Except String PyValue := do
  let passAnyway ← loadPrevPassAnyway file
  let o ← applyOverrides shows found.checks passAnyway
  return s.report nf found o passAnyway

/-- A run that raises writes nothing. -/
def StatusScript.next (s : StatusScript) (nf : String) (file : ReportFile) (found : Findings) :
    ReportFile :=
  match s.run shows nf found file with
  | .ok v => .doc v
  | .error _ => file

inductive SnapshotStatus where
  | pass
  | fail
  | missing
  deriving DecidableEq

structure Snapshot where
  id : String
  source : String
  sourceSkill : String
  status : SnapshotStatus
  reason : String
  blockedBy : List PyValue
  toPass : List String

def contractPath (nf : String) : String := "design/" ++ nf ++ "/_contract_status.yaml"

def archPath (nf : String) : String := "design/" ++ nf ++ "/_arch_status.yaml"

def implPath (nf : String) : String := "dev/" ++ nf ++ "/_impl_status.yaml"

def engPath (nf : String) : String := "engineering/" ++ nf ++ "/_engineering_status.yaml"

/-- A gate, the report that it stands in, and the skill that writes the report. -/
def upstreamSources (nf : String) : List (String × String × String) :=
  [("handoff_ready", contractPath nf, "/nf-contract-check <nf>"),
    ("contract_implementable", contractPath nf, "/nf-contract-check <nf>"),
    ("arch_consistent", archPath nf, "/nf-arch-status <nf>"),
    ("impl_ready_for_codegen", implPath nf, "/nf-impl-status <nf>"),
    ("eng_frozen", engPath nf, "/nf-eng-status <nf>")]

def isGate (gateId : String) : PyValue → Bool
  | .dict entries => ((entries.lookup "id").getD .none).isText gateId
  | _ => false

def findGate (doc : PyValue) (gateId : String) : Except String (Option PyValue) := do
  let gates ← doc.get "gates"
  match gates.orElse (.list []) with
  | .list items => return items.find? (isGate gateId)
  | _ => return none

/-- `list(v)`. -/
def listOf : PyValue → Except String (List PyValue)
  | .list items => .ok items
  | .text s => .ok (s.toList.map fun c => .text (String.ofList [c]))
  | .dict entries => .ok (entries.map fun e => .text e.1)
  | _ => .error "TypeError"

def snapshotOf (gateId source skill : String) (g : PyValue) : Except String Snapshot := do
  let status ← g.get "status"
  if status.isText "FAIL" then
    let blockedBy ← listOf ((← g.get "blocked_by").orElse (.list []))
    return ⟨gateId, source, skill, .fail,
      gateId ++ " FAIL — blocked_by " ++ shows.str (.list blockedBy), blockedBy,
      [skill ++ " 의 blocked_by check 해소 후 재실행"]⟩
  else if status.isText "PASS" then
    return ⟨gateId, source, skill, .pass, gateId ++ " PASS", [], []⟩
  else
    return ⟨gateId, source, skill, .missing,
      gateId ++ " gate status=" ++ shows.repr status ++ " (PASS/FAIL 외)", [], [skill ++ " 재실행"]⟩

def snapshot (files : String → ReportFile) (source : String × String × String) :
    Except String Snapshot := do
  let (gateId, path, skill) := source
  match files path with
  | .absent =>
    return ⟨gateId, path, skill, .missing, path ++ " 없음", [], [skill ++ " 실행해 " ++ path ++ " 생성"]⟩
  | .unreadable why =>
    return ⟨gateId, path, skill, .missing, path ++ " YAML 파싱 실패 — " ++ why, [],
      [skill ++ " 실행해 " ++ path ++ " 생성"]⟩
  | .doc v =>
    match ← findGate (v.orElse (.dict [])) gateId with
    | none =>
      return ⟨gateId, path, skill, .missing, path ++ " 에 gates[id='" ++ gateId ++ "'] 없음", [],
        [skill ++ " (최신 버전) 으로 재생성 — " ++ gateId ++ " gate 가 누락"]⟩
    | some g => snapshotOf shows gateId path skill g

def aggregate (snapshots : List Snapshot) : Gate :=
  let blockers := (snapshots.filter fun s => s.status ≠ .pass).map Snapshot.id
  ⟨"readiness_pack_ready", snapshots.map Snapshot.id, if blockers.isEmpty then .pass else .fail,
    blockers⟩

def collect (files : String → ReportFile) (nf : String) : Except String (List Snapshot × Gate) := do
  let snapshots ← (upstreamSources nf).mapM (snapshot shows files)
  return (snapshots, aggregate snapshots)

end run

/-- The gate stands in the report and passes. -/
def GatePasses (file : ReportFile) (gateId : String) : Prop :=
  ∃ v g, file = .doc v ∧ findGate (v.orElse (.dict [])) gateId = .ok (some g) ∧
    g.get "status" = .ok (.text "PASS")

section reports

variable {shows : Shows} {s : StatusScript} {nf : String} {found : Findings} {o : Overridden}
  {passAnyway : List PyValue} {file : ReportFile}

theorem report_orElse (w : PyValue) :
    (s.report nf found o passAnyway).orElse w = s.report nf found o passAnyway :=
  PyValue.truthy_orElse (by cases found.advisory <;> rfl) w

theorem loadPrev_report :
    loadPrevPassAnyway (.doc (s.report nf found o passAnyway)) = .ok passAnyway := by
  have hget : (s.report nf found o passAnyway).get "manual_overrides" =
      .ok (.dict [("pass_anyway", .list passAnyway)]) := by
    cases hadv : found.advisory <;> simp [StatusScript.report, hadv, PyValue.get, List.lookup]
  have hlist : (PyValue.list passAnyway).orElse (.list []) = .list passAnyway := by
    cases passAnyway <;> rfl
  simp only [loadPrevPassAnyway, report_orElse, hget, bind, Except.bind]
  rw [PyValue.truthy_orElse (by rfl)]
  simp only [PyValue.get, List.lookup, beq_self_eq_true, Option.getD_some, hlist]
  rfl

/-- The overrides of a report go into the next one. -/
theorem loadPrev_next :
    loadPrevPassAnyway (s.next shows nf file found) = loadPrevPassAnyway file := by
  rw [StatusScript.next]
  cases hrun : s.run shows nf found file with
  | error x => rfl
  | ok v =>
    cases hraw : loadPrevPassAnyway file with
    | error x =>
      rw [StatusScript.run, hraw] at hrun
      cases hrun
    | ok raw =>
      cases ho : applyOverrides shows found.checks raw with
      | error x =>
        simp only [StatusScript.run, hraw, bind, Except.bind, ho] at hrun
        cases hrun
      | ok o =>
        simp only [StatusScript.run, hraw, bind, Except.bind, ho] at hrun
        cases hrun
        exact loadPrev_report

theorem loadPrev_runs (past : List Findings) :
    loadPrevPassAnyway (past.foldl (s.next shows nf) file) = loadPrevPassAnyway file := by
  induction past generalizing file with
  | nil => rfl
  | cons found past ih => rw [List.foldl_cons, ih, loadPrev_next]

theorem find_gate {defs : List GateDef} (hn : (defs.map Prod.fst).Nodup) {d : GateDef}
    (hd : d ∈ defs) (checks : List Check) :
    ((computeGates defs checks).map gateDoc).find? (isGate d.1) =
      some (gateDoc (computeGate checks d)) := by
  induction defs with
  | nil => cases hd
  | cons e defs ih =>
    rw [List.map_cons, List.nodup_cons] at hn
    simp only [computeGates, List.map_cons, List.find?_cons]
    by_cases hid : e.1 = d.1
    · have hsame : e = d := by
        rcases List.mem_cons.1 hd with h | h
        · exact h.symm
        · exact absurd (List.mem_map.2 ⟨d, h, hid.symm⟩) hn.1
      have hgate : isGate d.1 (gateDoc (computeGate checks e)) = true := by
        simp [isGate, gateDoc, computeGate, List.lookup, PyValue.isText, hid]
      rw [hgate, hsame]
    · have hgate : isGate d.1 (gateDoc (computeGate checks e)) = false := by
        simpa [isGate, gateDoc, computeGate, List.lookup, PyValue.isText] using hid
      rw [hgate]
      rcases List.mem_cons.1 hd with h | h
      · exact absurd (congrArg Prod.fst h).symm hid
      · exact ih hn.2 h

theorem findGate_report {d : GateDef} (hd : d ∈ s.gateDefs) :
    findGate (s.report nf found o passAnyway) d.1 =
      .ok (some (gateDoc (computeGate o.checks d))) := by
  have hget : (s.report nf found o passAnyway).get "gates" =
      .ok (.list ((computeGates s.gateDefs o.checks).map gateDoc)) := by
    simp [StatusScript.report, PyValue.get, List.lookup]
  have hfind := find_gate s.distinct hd o.checks
  have htruthy : (PyValue.list ((computeGates s.gateDefs o.checks).map gateDoc)).truthy = true := by
    simp only [PyValue.truthy, computeGates, List.map_map, Bool.not_eq_true', List.isEmpty_map]
    exact List.isEmpty_eq_false_iff.2 (List.ne_nil_of_mem hd)
  simp only [findGate, hget, bind, Except.bind]
  rw [PyValue.truthy_orElse htruthy]
  simp only [hfind]
  rfl

theorem gateDoc_status (g : Gate) : (gateDoc g).get "status" = .ok (.text g.status.word) := by
  simp [gateDoc, PyValue.get, List.lookup]

theorem computeGate_pass_iff {checks : List Check} {d : GateDef} :
    (computeGate checks d).status.word = "PASS" ↔ ∀ cid ∈ d.2, blocked checks cid = none := by
  rw [← List.filterMap_eq_nil_iff]
  simp only [computeGate, List.isEmpty_iff]
  split
  · rename_i h
    simp [h, CheckStatus.word]
  · rename_i h
    simp [h, CheckStatus.word]

end reports

/-- Before its runs the script finds overrides that it can use, and the last run has each of its
checks once and none of them overridden yet. -/
structure Reported (start : ReportFile) (raw : List PyValue) (last : Findings) : Prop where
  read : loadPrevPassAnyway start = .ok raw
  usable : ∀ e ∈ raw, Usable e
  distinct : (last.checks.map Check.id).Nodup
  fresh : ∀ c ∈ last.checks, c.overridden = false

/-- The runs of one script, from the report that a person left to the last one. -/
structure History where
  start : ReportFile
  raw : List PyValue
  past : List Findings
  last : Findings
  reported : Reported start raw last

/-- The report behind the runs. -/
def History.file (h : History) (shows : Shows) (s : StatusScript) (nf : String) : ReportFile :=
  s.next shows nf (h.past.foldl (s.next shows nf) h.start) h.last

/-- Every check of the gate is passed over in the last run. -/
def History.Cleared (h : History) (s : StatusScript) (gateId : String) : Prop :=
  ∀ d ∈ s.gateDefs, d.1 = gateId → ∀ cid ∈ d.2, Clears h.last.checks h.raw cid

section signal

variable {shows : Shows} {nf : String} {files : String → ReportFile}

/-- What a gate of a report says depends on the last run and on the overrides of the first
report. -/
theorem gatePasses_file (h : History) {s : StatusScript} {d : GateDef} (hd : d ∈ s.gateDefs) :
    GatePasses (h.file shows s nf) d.1 ↔ h.Cleared s d.1 := by
  have hraw : loadPrevPassAnyway (h.past.foldl (s.next shows nf) h.start) = .ok h.raw :=
    (loadPrev_runs h.past).trans h.reported.read
  obtain ⟨o, ho⟩ := @exists_applyOverrides shows h.last.checks h.raw h.reported.usable
  have hfile : h.file shows s nf = .doc (s.report nf h.last o h.raw) := by
    simp only [History.file, StatusScript.next, StatusScript.run, hraw, bind, Except.bind, ho]
    rfl
  have hclears : (∀ cid ∈ d.2, blocked o.checks cid = none) ↔ h.Cleared s d.1 := by
    constructor
    · intro hall e he hid cid hcid
      rw [List.inj_on_of_nodup_map s.distinct he hd hid] at hcid
      exact (blocked_eq_none_iff h.reported.distinct h.reported.fresh ho).1 (hall cid hcid)
    · intro hall cid hcid
      exact (blocked_eq_none_iff h.reported.distinct h.reported.fresh ho).2 (hall d hd rfl cid hcid)
  rw [← hclears, ← computeGate_pass_iff, hfile]
  constructor
  · rintro ⟨v, g, hv, hfind, hstatus⟩
    cases hv
    rw [report_orElse, findGate_report hd] at hfind
    cases hfind
    rw [gateDoc_status] at hstatus
    exact PyValue.text.inj (Except.ok.inj hstatus)
  · intro hword
    refine ⟨_, gateDoc (computeGate o.checks d), rfl, ?_, ?_⟩
    · rw [report_orElse]
      exact findGate_report hd
    · rw [gateDoc_status, hword]

theorem snapshotOf_pass_iff {gateId source skill : String} {g : PyValue} :
    (∃ snap, snapshotOf shows gateId source skill g = .ok snap ∧ snap.status = .pass) ↔
      g.get "status" = .ok (.text "PASS") := by
  simp only [snapshotOf, bind, Except.bind]
  cases hstatus : g.get "status" with
  | error x => simp
  | ok status =>
    simp only [Except.ok.injEq]
    by_cases hfail : status.isText "FAIL" = true
    · rw [if_pos hfail]
      refine iff_of_false ?_ ?_
      · rintro ⟨snap, hok, hpass⟩
        cases hblocked : g.get "blocked_by" with
        | error x =>
          rw [hblocked] at hok
          cases hok
        | ok b =>
          rw [hblocked] at hok
          simp only at hok
          cases hlist : listOf (b.orElse (.list [])) with
          | error x =>
            rw [hlist] at hok
            cases hok
          | ok items =>
            rw [hlist] at hok
            cases hok
            cases hpass
      · rw [PyValue.isText_iff.1 hfail]
        simp
    · rw [if_neg hfail]
      by_cases hpass : status.isText "PASS" = true
      · rw [if_pos hpass]
        exact iff_of_true ⟨_, rfl, rfl⟩ (PyValue.isText_iff.1 hpass)
      · rw [if_neg hpass, ← PyValue.isText_iff]
        refine iff_of_false ?_ hpass
        rintro ⟨snap, hok, hsnap⟩
        cases hok
        cases hsnap

theorem snapshot_pass_iff {source : String × String × String} :
    (∃ snap, snapshot shows files source = .ok snap ∧ snap.status = .pass) ↔
      GatePasses (files source.2.1) source.1 := by
  obtain ⟨gateId, path, skill⟩ := source
  simp only [snapshot, GatePasses]
  cases hfile : files path with
  | absent => simp [pure, Except.pure]
  | unreadable why => simp [pure, Except.pure]
  | doc v =>
    simp only [bind, Except.bind]
    cases hgate : findGate (v.orElse (.dict [])) gateId with
    | error x => simp [hgate]
    | ok found =>
      cases found with
      | none => simp [pure, Except.pure, hgate]
      | some g =>
        rw [snapshotOf_pass_iff]
        constructor
        · intro hstatus
          exact ⟨v, g, rfl, hgate, hstatus⟩
        · rintro ⟨v', g', hv, hgate', hstatus⟩
          cases hv
          rw [hgate] at hgate'
          cases hgate'
          exact hstatus

theorem collect_pass_iff :
    (∃ snapshots g, collect shows files nf = .ok (snapshots, g) ∧ g.status = .pass) ↔
      ∀ source ∈ upstreamSources nf, GatePasses (files source.2.1) source.1 := by
  have haggregate (snapshots : List Snapshot) :
      (aggregate snapshots).status = .pass ↔ ∀ snap ∈ snapshots, snap.status = .pass := by
    simp only [aggregate, List.isEmpty_iff, List.map_eq_nil_iff, List.filter_eq_nil_iff]
    split
    · rename_i h
      simpa using h
    · rename_i h
      simpa using h
  constructor
  · rintro ⟨snapshots, g, hcollect, hpass⟩ source hsource
    rw [collect] at hcollect
    cases hall : (upstreamSources nf).mapM (snapshot shows files) with
    | error x =>
      rw [hall] at hcollect
      cases hcollect
    | ok snaps =>
      rw [hall] at hcollect
      cases hcollect
      obtain ⟨snap, hsnap, hok⟩ := exists_of_mem (mapM_ok hall) hsource
      exact snapshot_pass_iff.1 ⟨snap, hok, (haggregate snapshots).1 hpass snap hsnap⟩
  · intro h
    have hmade : ∀ source ∈ upstreamSources nf, ∃ snap, snapshot shows files source = .ok snap := by
      intro source hsource
      obtain ⟨snap, hok, -⟩ := (@snapshot_pass_iff shows files source).2 (h source hsource)
      exact ⟨snap, hok⟩
    obtain ⟨snaps, hall⟩ := exists_mapM hmade
    refine ⟨snaps, aggregate snaps, by rw [collect, hall]; rfl, ?_⟩
    rw [haggregate]
    intro snap hsnap
    obtain ⟨source, hsource, hok⟩ := exists_of_mem (mapM_ok hall).flip hsnap
    obtain ⟨snap', hok', hpass⟩ := (@snapshot_pass_iff shows files source).2 (h source hsource)
    rw [hok] at hok'
    cases hok'
    exact hpass

/-- However often the stages were run before, the signal is given just when the contract report
passes both of its gates and in the last run of each other stage every check that its gate needs
was there and did not fail, or is named by a complete override that a person wrote into the first
report. -/
theorem readiness_go_iff {arch impl eng : History}
    (harch : files (archPath nf) = arch.file shows archStatus nf)
    (himpl : files (implPath nf) = impl.file shows implStatus nf)
    (heng : files (engPath nf) = eng.file shows engStatus nf) :
    (∃ snapshots g, collect shows files nf = .ok (snapshots, g) ∧ g.status = .pass) ↔
      (GatePasses (files (contractPath nf)) "handoff_ready" ∧
        GatePasses (files (contractPath nf)) "contract_implementable") ∧
      arch.Cleared archStatus "arch_consistent" ∧
      impl.Cleared implStatus "impl_ready_for_codegen" ∧
      eng.Cleared engStatus "eng_frozen" := by
  have hA := @gatePasses_file shows nf arch archStatus _ (List.mem_singleton.2 rfl)
  have hI := @gatePasses_file shows nf impl implStatus _
    (List.mem_cons_of_mem _ (List.mem_singleton.2 rfl))
  have hE := @gatePasses_file shows nf eng engStatus _ (List.mem_singleton.2 rfl)
  rw [← harch] at hA
  rw [← himpl] at hI
  rw [← heng] at hE
  rw [collect_pass_iff, ← hA, ← hI, ← hE]
  simp only [upstreamSources, List.forall_mem_cons, List.not_mem_nil, IsEmpty.forall_iff,
    implies_true, and_true, and_assoc]

def passing (ids : List String) : Findings :=
  ⟨ids.map fun id => ⟨id, 1, "", "", .pass, false, "", []⟩, none⟩

theorem clears_passing {ids : List String} {raw : List PyValue} {cid : String} (h : cid ∈ ids) :
    Clears (passing ids).checks raw cid :=
  ⟨_, List.mem_map.2 ⟨cid, h, rfl⟩, rfl, fun hfail => (by cases hfail)⟩

theorem reported_passing {ids : List String} (hn : ids.Nodup) :
    Reported .absent [] (passing ids) where
  read := rfl
  usable := fun e he => (by cases he)
  distinct := by
    rw [passing, List.map_map]
    change (ids.map fun id => id).Nodup
    rw [List.map_id']
    exact hn
  fresh := by
    intro c hc
    obtain ⟨id, -, rfl⟩ := List.mem_map.1 hc
    rfl

/-- A person lets the gate pass over one check. -/
def sampleOverride : PyValue :=
  .dict [("check", .text "arch_files_present"), ("reason", .text "pending"),
    ("confirmed_by", .text "user")]

def sampleArch : History where
  start := .doc (.dict [("manual_overrides", .dict [("pass_anyway", .list [sampleOverride])])])
  raw := [sampleOverride]
  past := [passing ["arch_files_present"]]
  last := ⟨⟨"arch_files_present", 1, "", "", .fail, false, "", []⟩ ::
    (passing ["arch_sections_exact", "module_decomposition_present", "module_sections_exact",
      "arch_frontmatter_valid"]).checks, none⟩
  reported :=
    { read := rfl
      usable := by
        intro e he cid reason confirmedBy hcid _ _ _ _ _
        rw [List.mem_singleton.1 he] at hcid
        cases hcid
        rfl
      distinct := by decide
      fresh := by decide }

def sampleImpl : History :=
  ⟨.absent, [], [], _, @reported_passing ["readiness_pack_files_present",
      "api_matrix_covers_all_operations", "data_model_map_covers_all_contract_models",
      "all_work_items_have_expected_files", "all_work_items_have_tests",
      "all_work_items_have_verification_commands", "team_execution_plan_present",
      "phase_wi_coverage", "wi_depends_on_valid", "wi_phase_order_valid",
      "verification_plan_auto_complete", "human_review_pack_traceable", "gaps_classified",
      "blocker_gaps_zero", "no_spec_reread_required"] (by decide)⟩

def sampleEng : History :=
  ⟨.absent, [], [], _, @reported_passing ["eng_profile_valid", "eng_design_present",
    "eng_sections_exact", "eng_open_questions_empty", "eng_deferral_register_ok",
    "eng_inventory_covered", "eng_rows_well_formed", "eng_slot_typed_shape"] (by decide)⟩

def sampleShows : Shows := ⟨fun _ => "", fun _ => ""⟩

def sampleContract : PyValue :=
  .dict [("gates", .list [.dict [("id", .text "handoff_ready"), ("status", .text "PASS")],
    .dict [("id", .text "contract_implementable"), ("status", .text "PASS")]])]

def sampleFiles (path : String) : ReportFile :=
  if path = archPath "nssf" then sampleArch.file sampleShows archStatus "nssf"
  else if path = implPath "nssf" then sampleImpl.file sampleShows implStatus "nssf"
  else if path = engPath "nssf" then sampleEng.file sampleShows engStatus "nssf"
  else .doc sampleContract

theorem readiness_go_sample : ∃ snapshots g,
    collect sampleShows sampleFiles "nssf" = .ok (snapshots, g) ∧ g.status = .pass := by
  have harch : sampleFiles (archPath "nssf") = sampleArch.file sampleShows archStatus "nssf" :=
    if_pos rfl
  have himpl : sampleFiles (implPath "nssf") = sampleImpl.file sampleShows implStatus "nssf" := by
    rw [sampleFiles, if_neg (by decide), if_pos rfl]
  have heng : sampleFiles (engPath "nssf") = sampleEng.file sampleShows engStatus "nssf" := by
    rw [sampleFiles, if_neg (by decide), if_neg (by decide), if_pos rfl]
  have hcontract : sampleFiles (contractPath "nssf") = .doc sampleContract := by
    rw [sampleFiles, if_neg (by decide), if_neg (by decide), if_neg (by decide)]
  refine (readiness_go_iff harch himpl heng).2 ⟨?_, ?_, ?_, ?_⟩
  · rw [hcontract]
    exact ⟨⟨_, _, rfl, rfl, rfl⟩, ⟨_, _, rfl, rfl, rfl⟩⟩
  · intro d hd _ cid hcid
    rw [List.mem_singleton.1 hd] at hcid
    rcases List.mem_cons.1 hcid with rfl | hcid
    · exact ⟨_, List.mem_cons_self, rfl, fun _ => ⟨_, List.mem_singleton.2 rfl,
        _, _, rfl, by decide, rfl, rfl, rfl, rfl⟩⟩
    · obtain ⟨c, hc, hclears⟩ := @clears_passing _ sampleArch.raw cid hcid
      exact ⟨c, List.mem_cons_of_mem _ hc, hclears⟩
  · intro d hd hid cid hcid
    rcases List.mem_cons.1 hd with rfl | hd
    · exact absurd hid (by decide)
    · rw [List.mem_singleton.1 hd] at hcid
      exact clears_passing hcid
  · intro d hd _ cid hcid
    rw [List.mem_singleton.1 hd] at hcid
    exact clears_passing hcid

end signal

end Nssf.Design.StatusGates
