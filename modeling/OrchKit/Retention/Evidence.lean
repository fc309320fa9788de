import OrchKit.Data.Json
import OrchKit.Retention.Repairability

/-! # The evidence of a verification

The result of each check is written to a log whose name has the id of the check in it, and read
back for the manifest of the snapshot. A check without an id is called `check` when its log is
written, but `unnamed` when that is read back and when ids are compared.
-/

namespace OrchKit.Retention

open Except

/-! ### Checks and their results -/

/-- A check as it is planned, with what was bound to it. -/
structure PlannedCheck where
  id : Option String
  argv : List String
  executablePath : String
  outputTailChars : ℕ := 8000
  timeoutAction : String := "needs_fix"

/-- What became of the process of a check; without a return code it has timed out. -/
structure ProcessOutcome where
  returncode : Option ℤ
  durationMs : ℕ
  stdout : String
  stderr : String

/-- The id in results, and the one that `validate_task_definition` compares. -/
def PlannedCheck.resultId (check : PlannedCheck) : String := check.id.getD "unnamed"

def PlannedCheck.log (check : PlannedCheck) : LogKind := checkLog ⟨check.id.getD "check", []⟩

/-- `re.fullmatch(r"[A-Za-z0-9._-]{1,128}", s)`. -/
def isCheckId (s : String) : Bool := isIdentifier s && s.length ≤ 128

/-- The ids of checks, as `validate_task_definition` goes through them. -/
def validateCheckIds : List PlannedCheck → List String → Checked Unit
  | [], _ => .ok ()
  | check :: rest, seen => do
    require (isCheckId check.resultId) (.value "invalid_check_id")
    require (check.resultId ∉ seen) (.value ("duplicate_check_id:" ++ check.resultId))
    validateCheckIds rest (check.resultId :: seen)

def validateChecks (checks : List PlannedCheck) : Checked Unit := do
  require (checks.length ≤ 64) (.value "invalid_checks")
  validateCheckIds checks []

/-- `value[-n:]`. -/
def lastChars (n : ℕ) (value : String) : String :=
  if n = 0 then value else String.ofList (value.toList.drop (value.length - n))

/-- The result that `_run_check` writes. -/
def checkResultJson (check : PlannedCheck) (outcome : ProcessOutcome) : Json.Value :=
  Json.object [
    ("id", Json.text check.resultId),
    ("argv", .arr (check.argv.map Json.text)),
    ("executed_argv", .arr ((check.executablePath :: check.argv.tail).map Json.text)),
    ("exit_code", match outcome.returncode with
      | none => .null
      | some code => .number (.int code)),
    ("duration_ms", Json.nat outcome.durationMs),
    ("stdout", Json.text (lastChars check.outputTailChars outcome.stdout)),
    ("stderr", Json.text (lastChars check.outputTailChars outcome.stderr)),
    ("timed_out", .bool outcome.returncode.isNone),
    ("output_tail_chars", Json.nat check.outputTailChars),
    ("timeout_action", Json.text check.timeoutAction)]

section Logs

/- `dumps` is `json.dumps` with its options, and `fresh` the identity of a new file. -/
variable (sha256 : String → Hash) (dumps : Json.Value → String) (fresh : String → StatIdentity)

/-- The file that `atomic_write_json` puts in place of what is there. -/
def jsonFile (name : String) (value : Json.Value) : FileNode :=
  let data := dumps value ++ "\n"
  ⟨{ fresh name with size := data.utf8ByteSize }, sha256 data⟩

/-- `atomic_write_json`, of a log for a run. -/
def Disk.writeJson (d : Disk) (runId : RunId) (name : String) (value : Json.Value) : Checked Disk :=
  match d.node .log name with
  | some .other => .error (.value "atomic_json_target_unsafe")
  | some (.tree _) => .error (.other "IsADirectoryError" "Is a directory")
  | _ => .ok {
      nodes := d.nodes.put (.log, name) (.file (jsonFile sha256 dumps fresh name value))
      writtenFor := fun other => if other = name then some runId else d.writtenFor other }

/-- The checks that are run, each with what became of its process. -/
abbrev CheckRuns := List (PlannedCheck × ProcessOutcome)

/-- `_run_check`, for one check after the other. -/
def runPlannedChecks (runId : RunId) : CheckRuns → Disk → Checked (List CheckResult × Disk)
  | [], d => .ok ([], d)
  | (check, outcome) :: rest, d => do
    let d ← d.writeJson sha256 dumps fresh runId (check.log.fileName runId)
      (checkResultJson check outcome)
    let (results, d) ← runPlannedChecks runId rest d
    return (⟨check.resultId, outcome.returncode, outcome.returncode.isNone⟩ :: results, d)

/-- The evidence of `verify` when it stores a snapshot: the scope and the authority of the checks,
then their results, and what is read back of them. -/
def verifyEvidence (runId : RunId) (scope authority : Json.Value) (checks : CheckRuns) (d : Disk) :
    Checked (VerificationEvidence × List CheckResult × Disk) := do
  let d ← d.writeJson sha256 dumps fresh runId (LogKind.scope.fileName runId) scope
  let d ← d.writeJson sha256 dumps fresh runId (LogKind.checkAuthority.fileName runId) authority
  let (results, d) ← runPlannedChecks sha256 dumps fresh runId checks d
  let evidence ← d.verificationEvidenceManifest runId (results.map fun r => ⟨r.id, []⟩)
  return (evidence, results, d)

def contentOf (value : Json.Value) : Hash × ℕ :=
  (sha256 (dumps value ++ "\n"), (dumps value ++ "\n").utf8ByteSize)

def recordContent (r : EvidenceRecord) : Hash × ℕ := (r.sha256, r.bytes)

/-- The evidence is of the results of these very checks, in logs that nothing shares. -/
structure EvidenceBound (runId : RunId) (scope authority : Json.Value) (checks : CheckRuns)
    (evidence : VerificationEvidence) : Prop where
  scope : recordContent evidence.scope = contentOf sha256 dumps scope
  authority : recordContent evidence.checkAuthority = contentOf sha256 dumps authority
  results : evidence.checks.map (fun item => (item.1, recordContent item.2)) = checks.map fun c =>
    (c.1.resultId, contentOf sha256 dumps (checkResultJson c.1 c.2))
  apart : (LogKind.scope.fileName runId :: LogKind.checkAuthority.fileName runId ::
    checks.map fun c => c.1.log.fileName runId).Nodup

end Logs

/-! ### Names of logs -/

variable {runId : RunId} {a b : String} {check : PlannedCheck}

theorem fileName_checkResult_inj :
    (LogKind.checkResult a).fileName runId = (LogKind.checkResult b).fileName runId ↔ a = b := by
  constructor
  · intro h
    have hlist := congrArg String.toList h
    simp only [LogKind.fileName, String.toList_append, List.append_cancel_right_eq,
      List.append_cancel_left_eq] at hlist
    exact String.toList_injective hlist
  · rintro rfl
    rfl

theorem fileName_scope_ne :
    LogKind.scope.fileName runId ≠ (LogKind.checkResult a).fileName runId := by
  intro h
  have hlist := congrArg String.toList h
  simp only [LogKind.fileName, String.toList_append, List.append_assoc,
    List.append_cancel_left_eq] at hlist
  simp at hlist

theorem fileName_checkAuthority_ne :
    LogKind.checkAuthority.fileName runId ≠ (LogKind.checkResult a).fileName runId := by
  intro h
  have hlist := congrArg String.toList h
  simp only [LogKind.fileName, String.toList_append, List.append_assoc,
    List.append_cancel_left_eq] at hlist
  simp at hlist

theorem fileName_scope_ne_checkAuthority :
    LogKind.scope.fileName runId ≠ LogKind.checkAuthority.fileName runId := by
  intro h
  have hlist := congrArg String.toList h
  simp only [LogKind.fileName, String.toList_append, List.append_cancel_left_eq] at hlist
  simp at hlist

theorem checkLog_of_isCheckId (h : isCheckId a) : checkLog ⟨a, []⟩ = .checkResult a := by
  have hmap : a.toList.map (fun c => if c = '/' then '_' else c) = a.toList := by
    refine Eq.trans (List.map_congr_left ?_) (List.map_id _)
    intro c hc
    rw [if_neg, id]
    rintro rfl
    simp only [isCheckId, isIdentifier, Bool.and_eq_true, List.all_eq_true] at h
    exact absurd (h.1.2 _ hc) (by decide)
  rw [checkLog, hmap, String.ofList_toList]

def PlannedCheck.readName (runId : RunId) (check : PlannedCheck) : String :=
  (checkLog ⟨check.resultId, []⟩).fileName runId

theorem readName_of_isCheckId (h : isCheckId check.resultId) :
    check.readName runId = (LogKind.checkResult check.resultId).fileName runId := by
  rw [PlannedCheck.readName, checkLog_of_isCheckId h]

theorem log_of_isCheckId (h : isCheckId check.resultId) :
    check.log = .checkResult (check.id.getD "check") := by
  rw [PlannedCheck.log]
  rcases hid : check.id with _ | s
  · exact checkLog_of_isCheckId (by decide)
  · rw [PlannedCheck.resultId, hid] at h
    exact checkLog_of_isCheckId h

/-- The ids are well-formed and differ. -/
theorem validateChecks_ok {checks : List PlannedCheck} (h : validateChecks checks = .ok ()) :
    (∀ check ∈ checks, isCheckId check.resultId) ∧ (checks.map PlannedCheck.resultId).Nodup := by
  have hloop : ∀ {checks : List PlannedCheck} {seen : List String},
      validateCheckIds checks seen = .ok () → (∀ check ∈ checks, isCheckId check.resultId) ∧
        (checks.map PlannedCheck.resultId).Nodup ∧ ∀ check ∈ checks, check.resultId ∉ seen := by
    intro checks
    induction checks with
    | nil => simp
    | cons check rest ih =>
      intro seen hvalid
      simp only [validateCheckIds, bind_eq_ok_iff, require_eq_ok_iff] at hvalid
      obtain ⟨-, hid, -, hseen, hrest⟩ := hvalid
      obtain ⟨hids, hnodup, hapart⟩ := ih hrest
      refine ⟨?_, ?_, ?_⟩
      · simpa [hid] using hids
      · rw [List.map_cons, List.nodup_cons]
        refine ⟨?_, hnodup⟩
        intro hmem
        obtain ⟨other, ho, heq⟩ := List.mem_map.mp hmem
        exact hapart other ho (heq ▸ List.mem_cons_self)
      · intro other ho
        rcases List.mem_cons.mp ho with rfl | ho
        · exact hseen
        · exact fun hmem => hapart other ho (List.mem_cons_of_mem _ hmem)
  simp only [validateChecks, bind_eq_ok_iff, require_eq_ok_iff] at h
  obtain ⟨-, -, h⟩ := h
  obtain ⟨hids, hnodup, -⟩ := hloop h
  exact ⟨hids, hnodup⟩

/-! ### Writing and reading back -/

variable {sha256 : String → Hash} {dumps : Json.Value → String} {fresh : String → StatIdentity}
  {d d' : Disk} {name : String} {value scope authority : Json.Value} {checks : CheckRuns}
  {evidence : VerificationEvidence} {results : List CheckResult}

theorem writeJson_ok (h : d.writeJson sha256 dumps fresh runId name value = .ok d') :
    d'.node .log = fun other => if other = name then
      some (.file (jsonFile sha256 dumps fresh name value)) else d.node .log other := by
  rw [Disk.writeJson] at h
  split at h
  next => cases h
  next => cases h
  next =>
    cases h
    funext other
    rw [Disk.node, Table.lookup_put]
    simp only [Prod.mk.injEq, true_and]
    rfl

/-- The hash and the size of a log. -/
def Disk.contentAt (d : Disk) (name : String) : Option (Hash × ℕ) :=
  match d.node .log name with
  | some (.file f) => some (f.sha256, f.stat.size)
  | _ => none

theorem contentAt_of_writeJson (h : d.writeJson sha256 dumps fresh runId name value = .ok d')
    (other : String) : d'.contentAt other =
      if other = name then some (contentOf sha256 dumps value) else d.contentAt other := by
  rw [Disk.contentAt, writeJson_ok h]
  by_cases hname : other = name
  · simp [hname, jsonFile, contentOf]
  · simp [hname, Disk.contentAt]

theorem evidenceRecord_ok {errorId : String} {record : EvidenceRecord}
    (h : d.evidenceRecord name errorId = .ok record) : d.contentAt name = some
    (recordContent record) := by
  rw [Disk.evidenceRecord] at h
  rw [Disk.contentAt]
  split at h
  next => cases h
  next f hf =>
    split at h
    next =>
      cases h
      rw [hf]
      rfl
    next => cases h
  next => cases h

/-- The manifest has what the disk holds under the names for the ids. -/
theorem verificationEvidenceManifest_ok {ids : List Check}
    (h : d.verificationEvidenceManifest runId ids = .ok evidence) :
    d.contentAt (LogKind.scope.fileName runId) = some (recordContent evidence.scope) ∧
    d.contentAt (LogKind.checkAuthority.fileName runId) =
      some (recordContent evidence.checkAuthority) ∧
    evidence.checks.map (fun item => (item.1, some (recordContent item.2))) =
      ids.map fun check => (check.id, d.contentAt ((checkLog check).fileName runId)) := by
  have hitems : ∀ {ids : List Check} {items}, (ids.mapM fun check => do
      let item ← d.evidenceRecord ((checkLog check).fileName runId) ("check:" ++ check.id)
      return (check.id, item)) = .ok items →
        items.map (fun item => (item.1, some (recordContent item.2))) =
          ids.map fun check => (check.id, d.contentAt ((checkLog check).fileName runId)) := by
    intro ids
    induction ids with
    | nil =>
      intro items hitems
      rw [List.mapM_nil] at hitems
      cases hitems
      rfl
    | cons check ids ih =>
      intro items hitems
      rw [List.mapM_cons] at hitems
      simp only [bind_eq_ok_iff, pure_eq_ok_iff] at hitems
      obtain ⟨_, ⟨record, hrecord, rfl⟩, rest, hrest, rfl⟩ := hitems
      rw [List.map_cons, List.map_cons, ih hrest, evidenceRecord_ok hrecord]
  simp only [Disk.verificationEvidenceManifest, bind_eq_ok_iff, pure_eq_ok_iff] at h
  obtain ⟨s, hs, c, hc, items, hmap, rfl⟩ := h
  exact ⟨evidenceRecord_ok hs, evidenceRecord_ok hc, hitems hmap⟩

/-- Each result is in its log, unless a later check has the same one. -/
theorem runPlannedChecks_ok
    (h : runPlannedChecks sha256 dumps fresh runId checks d = .ok (results, d')) :
    results.map CheckResult.id = checks.map (fun c => c.1.resultId) ∧
    (∀ name, (∀ c ∈ checks, c.1.log.fileName runId ≠ name) → d'.contentAt name = d.contentAt name) ∧
    ((checks.map fun c => c.1.log.fileName runId).Nodup → ∀ c ∈ checks,
      d'.contentAt (c.1.log.fileName runId) =
        some (contentOf sha256 dumps (checkResultJson c.1 c.2))) := by
  induction checks generalizing d results with
  | nil =>
    cases h
    simp
  | cons c rest ih =>
    obtain ⟨check, outcome⟩ := c
    simp only [runPlannedChecks, bind_eq_ok_iff, pure_eq_ok_iff, Prod.mk.injEq] at h
    obtain ⟨d₁, hwrite, ⟨later, d₂⟩, hrest, rfl, rfl⟩ := h
    obtain ⟨hids, hothers, hown⟩ := ih hrest
    refine ⟨?_, ?_, ?_⟩
    · rw [List.map_cons, List.map_cons, hids]
    · intro name hname
      rw [hothers name fun c hc => hname c (List.mem_cons_of_mem _ hc),
        contentAt_of_writeJson hwrite, if_neg (hname _ List.mem_cons_self).symm]
    · intro hnodup c hc
      rw [List.map_cons, List.nodup_cons] at hnodup
      rcases List.mem_cons.mp hc with rfl | hc
      · rw [hothers, contentAt_of_writeJson hwrite, if_pos rfl]
        intro other ho heq
        exact hnodup.1 (List.mem_map.mpr ⟨other, ho, heq⟩)
      · exact hown hnodup.2 c hc

/-! ### The evidence that is stored -/

variable (sha256 dumps) in
/-- The log that is read back for a check without an id had been left there, with the very result
of this check, and no check is called `check`. -/
def LeftOver (runId : RunId) (checks : CheckRuns) (d : Disk) : Prop :=
  ∀ c ∈ checks, c.1.id = none →
    d.contentAt ((LogKind.checkResult "unnamed").fileName runId) =
      some (contentOf sha256 dumps (checkResultJson c.1 c.2)) ∧
    ∀ other ∈ checks, other.1.id ≠ some "check"

section Stored

variable (hvalid : validateChecks (checks.map Prod.fst) = .ok ())
include hvalid

theorem isCheckId_resultId {c : PlannedCheck × ProcessOutcome} (hc : c ∈ checks) :
    isCheckId c.1.resultId := (validateChecks_ok hvalid).1 _ (List.mem_map_of_mem hc)

theorem resultId_inj {c other : PlannedCheck × ProcessOutcome} (hc : c ∈ checks)
    (ho : other ∈ checks)
    (h : c.1.resultId = other.1.resultId) : c = other := by
  have hnodup := (validateChecks_ok hvalid).2
  rw [List.map_map] at hnodup
  exact List.inj_on_of_nodup_map hnodup hc ho h

/-- The names of the logs that are written differ, unless a check is called what another without
an id is called. -/
theorem nodup_logs_iff : (LogKind.scope.fileName runId :: LogKind.checkAuthority.fileName runId ::
    checks.map fun c => c.1.log.fileName runId).Nodup ↔
      ∀ c ∈ checks, c.1.id = none → ∀ other ∈ checks, other.1.id ≠ some "check" := by
  have hname : ∀ c ∈ checks, c.1.log = .checkResult (c.1.id.getD "check") := fun c hc =>
    log_of_isCheckId (isCheckId_resultId hvalid hc)
  constructor
  · intro hnodup c hc hnone other ho hcheck
    rw [List.nodup_cons, List.nodup_cons] at hnodup
    have heq : c = other := by
      apply List.inj_on_of_nodup_map hnodup.2.2 hc ho
      rw [hname c hc, hname other ho, hnone, hcheck]
      rfl
    rw [heq, hcheck] at hnone
    cases hnone
  · intro hchecks
    rw [List.nodup_cons, List.nodup_cons]
    refine ⟨?_, ?_, ?_⟩
    · intro hmem
      rcases List.mem_cons.mp hmem with heq | hmem
      · exact fileName_scope_ne_checkAuthority heq
      · obtain ⟨c, hc, heq⟩ := List.mem_map.mp hmem
        rw [hname c hc] at heq
        exact fileName_scope_ne heq.symm
    · intro hmem
      obtain ⟨c, hc, heq⟩ := List.mem_map.mp hmem
      rw [hname c hc] at heq
      exact fileName_checkAuthority_ne heq.symm
    · have hids := (validateChecks_ok hvalid).2
      rw [List.map_map] at hids
      refine (List.pairwise_map.mp hids).imp_of_mem ?_ |> List.pairwise_map.mpr
      intro c other hc ho hne heq
      rw [hname c hc, hname other ho, fileName_checkResult_inj] at heq
      apply hne
      simp only [Function.comp_apply, PlannedCheck.resultId]
      rcases hid : c.1.id with _ | s <;> rcases hid' : other.1.id with _ | s'
      · rfl
      · rw [hid, hid'] at heq
        exact absurd (hid'.trans (congrArg some heq.symm)) (hchecks c hc hid other ho)
      · rw [hid, hid'] at heq
        exact absurd (hid.trans (congrArg some heq)) (hchecks other ho hid' c hc)
      · rw [hid, hid'] at heq
        exact heq

theorem unnamed_not_written {c other : PlannedCheck × ProcessOutcome} (hc : c ∈ checks)
    (hnone : c.1.id = none) (ho : other ∈ checks) :
    other.1.log.fileName runId ≠ (LogKind.checkResult "unnamed").fileName runId := by
  rw [log_of_isCheckId (isCheckId_resultId hvalid ho), Ne, fileName_checkResult_inj]
  intro heq
  have hsame : c.1.resultId = other.1.resultId := by
    rw [PlannedCheck.resultId, hnone, PlannedCheck.resultId]
    rcases hid : other.1.id with _ | s
    · rfl
    · rw [hid] at heq
      exact heq.symm
  rw [← resultId_inj hvalid hc ho hsame, hnone] at heq
  exact absurd heq (by decide)

/-- Where `verify` stores a snapshot, its evidence is that of its own checks exactly when each has
an id, or what was left behind under the name for a check without one happens to be the same. -/
theorem evidenceBound_iff
    (hstored : verifyEvidence sha256 dumps fresh runId scope authority checks d =
      .ok (evidence, results, d')) :
    EvidenceBound sha256 dumps runId scope authority checks evidence ↔
      LeftOver sha256 dumps runId checks d := by
  simp only [verifyEvidence, bind_eq_ok_iff, pure_eq_ok_iff, Prod.mk.injEq] at hstored
  obtain ⟨d₁, hscope, d₂, hauthority, ⟨ran, d₃⟩, hrun, manifest, hread, rfl, rfl, rfl⟩ := hstored
  obtain ⟨hids, hothers, hown⟩ := runPlannedChecks_ok hrun
  obtain ⟨hscope', hauthority', hitems⟩ := verificationEvidenceManifest_ok hread
  have hname : ∀ c ∈ checks, c.1.log = .checkResult (c.1.id.getD "check") := fun c hc =>
    log_of_isCheckId (isCheckId_resultId hvalid hc)
  -- What is read back for each check.
  have hback : manifest.checks.map (fun item => (item.1, some (recordContent item.2))) =
      checks.map fun c => (c.1.resultId, d₃.contentAt (c.1.readName runId)) := by
    have hmap : ran.map (fun r => (r.id, d₃.contentAt ((checkLog ⟨r.id, []⟩).fileName runId))) =
        (ran.map CheckResult.id).map fun id =>
          (id, d₃.contentAt ((checkLog ⟨id, []⟩).fileName runId)) := by
      rw [List.map_map]
      rfl
    rw [hitems, List.map_map]
    refine Eq.trans hmap ?_
    rw [hids, List.map_map]
    rfl
  have hunnamed : ∀ c ∈ checks, c.1.id = none →
      d₃.contentAt (c.1.readName runId) =
        d.contentAt ((LogKind.checkResult "unnamed").fileName runId) := by
    intro c hc hnone
    have hread : c.1.readName runId = (LogKind.checkResult "unnamed").fileName runId := by
      rw [readName_of_isCheckId (isCheckId_resultId hvalid hc), PlannedCheck.resultId, hnone]
      rfl
    rw [hread, hothers _ fun other ho => unnamed_not_written hvalid hc hnone ho,
      contentAt_of_writeJson hauthority, if_neg fileName_checkAuthority_ne.symm,
      contentAt_of_writeJson hscope, if_neg fileName_scope_ne.symm]
  have hnamed : ∀ c ∈ checks, c.1.id ≠ none → c.1.readName runId = c.1.log.fileName runId := by
    intro c hc hsome
    rw [readName_of_isCheckId (isCheckId_resultId hvalid hc), hname c hc, PlannedCheck.resultId]
    rcases hid : c.1.id with _ | s
    · exact absurd hid hsome
    · rfl
  have hresults : manifest.checks.map (fun item => (item.1, recordContent item.2)) =
      checks.map (fun c => (c.1.resultId, contentOf sha256 dumps (checkResultJson c.1 c.2))) ↔
        ∀ c ∈ checks, d₃.contentAt (c.1.readName runId) =
          some (contentOf sha256 dumps (checkResultJson c.1 c.2)) := by
    have hinj : Function.Injective fun p : String × (Hash × ℕ) => (p.1, some p.2) := by
      rintro ⟨a, b⟩ ⟨a', b'⟩ h
      simpa using h
    rw [← (List.map_injective_iff.mpr hinj).eq_iff, List.map_map, List.map_map]
    refine Iff.trans (Eq.congr_left hback) ?_
    rw [List.map_inj_left]
    simp
  constructor
  · rintro ⟨-, -, hbound, hapart⟩ c hc hnone
    rw [hresults] at hbound
    refine ⟨?_, (nodup_logs_iff hvalid).mp hapart c hc hnone⟩
    rw [← hunnamed c hc hnone]
    exact hbound c hc
  · intro hleft
    have hapart := (@nodup_logs_iff runId _ hvalid).mpr fun c hc hnone => (hleft c hc hnone).2
    obtain ⟨hscopeFresh, hrest⟩ := List.nodup_cons.mp hapart
    obtain ⟨hauthorityFresh, hnodup⟩ := List.nodup_cons.mp hrest
    constructor
    · rw [hothers, contentAt_of_writeJson hauthority,
        if_neg fileName_scope_ne_checkAuthority, contentAt_of_writeJson hscope,
          if_pos rfl] at hscope'
      · exact (Option.some.inj hscope').symm
      · intro c hc heq
        exact hscopeFresh (List.mem_cons_of_mem _ (List.mem_map.mpr ⟨c, hc, heq⟩))
    · rw [hothers, contentAt_of_writeJson hauthority, if_pos rfl] at hauthority'
      · exact (Option.some.inj hauthority').symm
      · intro c hc heq
        exact hauthorityFresh (List.mem_map.mpr ⟨c, hc, heq⟩)
    · rw [hresults]
      intro c hc
      by_cases hnone : c.1.id = none
      · rw [hunnamed c hc hnone]
        exact (hleft c hc hnone).1
      · rw [hnamed c hc hnone]
        exact hown hnodup c hc
    · exact hapart

end Stored

namespace Scenario

def foreign : CheckRuns :=
  [(⟨some "x-A1-bbbbbbbbbb-check-result-unnamed", ["true"], "/bin/true", 8000, "needs_fix"⟩,
    ⟨some 0, 1, "", ""⟩)]

def nameless : CheckRuns :=
  [(⟨none, ["false"], "/bin/false", 8000, "needs_fix"⟩, ⟨some 1, 1, "", ""⟩)]

def firstRun : RunId := "t-A1-aaaaaaaaaa"

def secondRun : RunId := "t-A1-aaaaaaaaaa-check-result-x-A1-bbbbbbbbbb"

def write (value : Json.Value) : String := String.ofList (value.write fun _ => [])

/-- What `verify` makes of a run when the disk is `d`. -/
def verified (runId : RunId) (checks : CheckRuns) (d : Disk) :
    Checked (VerificationEvidence × List CheckResult × Disk) :=
  verifyEvidence id write (fun _ => ⟨1, 2, 0o100600, 0, 0, 0⟩) runId (.obj []) (.obj []) checks d

/-- Both runs are verified, the second with evidence that is not of its checks. -/
def misattributes (first second : RunId) (checks checks' : CheckRuns) (d₀ : Disk) : Bool :=
  match verified first checks d₀ with
  | .ok (_, _, d) =>
    match verified second checks' d with
    | .ok (evidence, _, _) =>
        decide (evidence.checks.map (fun item => (item.1, recordContent item.2)) ≠
        checks'.map fun c => (c.1.resultId, contentOf id write (checkResultJson c.1 c.2)))
    | .error _ => false
  | .error _ => false

theorem exists_of_misattributes {first second : RunId} {checks checks' : CheckRuns} {d₀ : Disk}
    (h : misattributes first second checks checks' d₀) : ∃ d d' evidence evidence' results results',
      verified first checks d₀ = .ok (evidence, results, d) ∧
      verified second checks' d = .ok (evidence', results', d') ∧
      ¬ EvidenceBound id write second (.obj []) (.obj []) checks' evidence' := by
  rw [misattributes] at h
  split at h
  next evidence results d hfirst =>
    split at h
    next evidence' results' d' hsecond =>
      refine ⟨d, d', evidence, evidence', results, results', hfirst, hsecond, ?_⟩
      exact fun hbound => of_decide_eq_true h hbound.results
    next => cases h
  next => cases h

end Scenario

open OrchKit.Retention.Scenario in
theorem evidenceBound_iff_foreign : ∃ evidence results d',
    verified firstRun foreign ⟨∅, fun _ => none⟩ = .ok (evidence, results, d') ∧
    (EvidenceBound id write firstRun (.obj []) (.obj []) foreign evidence ↔
      LeftOver id write firstRun foreign ⟨∅, fun _ => none⟩) := by
  have hok : (verified firstRun foreign ⟨∅, fun _ => none⟩).isOk = true := by decide +kernel
  rcases hrun : verified firstRun foreign ⟨∅, fun _ => none⟩ with _ | ⟨evidence, results, d'⟩
  · rw [hrun] at hok
    cases hok
  · refine ⟨evidence, results, d', rfl, ?_⟩
    exact evidenceBound_iff (by decide) hrun

open OrchKit.Retention.Scenario in
/-- The snapshot of a run has the result of another run for a check of its own that failed. -/
theorem not_always_evidenceBound :
    validateChecks (foreign.map Prod.fst) = .ok () ∧
    validateChecks (nameless.map Prod.fst) = .ok () ∧
    ∃ d d' evidence evidence' results results',
      verified firstRun foreign ⟨∅, fun _ => none⟩ = .ok (evidence, results, d) ∧
      verified secondRun nameless d = .ok (evidence', results', d') ∧
      ¬ EvidenceBound id write secondRun (.obj []) (.obj []) nameless evidence' := by
  refine ⟨?_, ?_, exists_of_misattributes ?_⟩
  · decide
  · decide
  · decide +kernel

end OrchKit.Retention
