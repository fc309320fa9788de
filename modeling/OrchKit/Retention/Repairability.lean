import OrchKit.Retention.Attribution

/-! # What pruning leaves of repair and readmission

A repair claim reads the verification logs of the run it repairs, and a readmission reads its
receipt and its review besides. Pruning takes these away like any other evidence. It leaves an
admission as it was exactly when no run that is due has a file the admission reads.
-/

namespace OrchKit.Retention

open Except Program

/-! ### Evidence that is read back -/

def maxEvidenceLogBytes : ℕ := 1024 * 1024

/-- The log of a check, whose name is part of a file name. -/
def checkLog (check : Check) : LogKind :=
  .checkResult (String.ofList (check.id.toList.map fun c => if c = '/' then '_' else c))

/-- The names of the logs that verification evidence consists of. -/
def evidenceLogs (runId : RunId) (checks : List Check) : List String :=
  LogKind.scope.fileName runId :: LogKind.checkAuthority.fileName runId ::
    checks.map fun check => (checkLog check).fileName runId

/-- How the content of receipts and review reports is read. -/
structure Reader where
  receipt : Node → Checked (Receipt × Hash × ℕ)
  report : Node → Checked (ReviewReport × Hash × ℕ)

namespace Disk

def evidenceRecord (d : Disk) (name errorId : String) : Checked EvidenceRecord :=
  match d.node .log name with
  | none => .error (.value ("verification_evidence_missing:" ++ errorId))
  | some (.file f) =>
    if f.stat.size ≤ maxEvidenceLogBytes then .ok ⟨name, f.sha256, f.stat.size⟩
    else .error (.value ("verification_evidence_too_large:" ++ errorId))
  | some _ => .error (.value ("verification_evidence_unsafe:" ++ errorId))

/-- `_verification_evidence_manifest`. -/
def verificationEvidenceManifest (d : Disk) (runId : RunId) (checks : List Check) :
    Checked VerificationEvidence := do
  let scope ← d.evidenceRecord (LogKind.scope.fileName runId) "scope"
  let authority ← d.evidenceRecord (LogKind.checkAuthority.fileName runId) "check_authority"
  let items ← checks.mapM fun check => do
    let item ← d.evidenceRecord ((checkLog check).fileName runId) ("check:" ++ check.id)
    return (check.id, item)
  return ⟨scope, authority, items⟩

def loadWorkerReceipt (d : Disk) (reader : Reader) (runId : RunId) :
    Checked (Receipt × Hash × ℕ) :=
  match d.node .workerReceipt (receiptName runId) with
  | none => .error (.value "receipt_file_missing_or_unsafe")
  | some node => reader.receipt node

/-- The report lies in the export of the run. -/
def loadReviewReport (d : Disk) (reader : Reader) (runId : RunId) :
    Checked (ReviewReport × Hash × ℕ) :=
  match d.node .reviewExport runId with
  | none => .error (.value "review_report_missing_or_unsafe")
  | some node => reader.report node

/-- What the outside answers when evidence is read from this disk. -/
def view (d : Disk) (reader : Reader) (outside : View) : View
  | .retainedEvidenceManifest runId checks => d.verificationEvidenceManifest runId checks
  | .loadWorkerReceipt runId => d.loadWorkerReceipt reader runId
  | .loadReviewReport runId => d.loadReviewReport reader runId
  | o => outside o

end Disk

/-- `_readmission_event`: the latest event of a kind that the run has. -/
def readmissionEvent {α : Type} (L : Ledger) (runId : RunId) (run : Run) (kind : String)
    (read : EventKind → Option α) : Checked α := do
  let missing := Exn.value ("readmission_evidence_event_missing:" ++ kind)
  let event ← ofOption (L.events.findSome? fun event =>
    if event.runId = some runId then (read event.kind).map fun a => (event.taskId, a) else none)
    missing
  require (event.1 = some run.taskId) missing
  return event.2

/-- How many events are newer than the latest one of a kind that the run has. -/
def eventAge (L : Ledger) (runId : RunId) (kind : EventKind → Bool) : Option ℕ :=
  L.events.findIdx? fun event => event.runId = some runId ∧ kind event.kind

/-- `_readmission_retained_evidence`. -/
def readmissionRetainedEvidence (L : Ledger) (view : View) (runId : RunId) (run : Run)
    (payload : TaskPayload) (manifest : Manifest) (verdict : Verdict) : Checked Unit := do
  let receipt : Receipt × Hash × ℕ ← view (.loadWorkerReceipt runId)
  let submitted ← readmissionEvent L runId run "RESULT_SUBMITTED" fun
    | .resultSubmitted _ sha256 bytes => some (sha256, bytes)
    | _ => none
  require (some receipt.1 = run.receipt ∧ receipt.1.runId = runId ∧
      receipt.1.taskId = run.taskId ∧ sorted receipt.1.changedPaths = manifest.changed ∧
      submitted = receipt.2) (.value "readmission_receipt_evidence_changed")
  let evidence : VerificationEvidence ← view (.retainedEvidenceManifest runId payload.checks)
  require (some evidence = manifest.verificationEvidence)
    (.value "readmission_verification_evidence_changed")
  let verified ← readmissionEvent L runId run "VERIFY_PASS" fun
    | .verifyPass snapshotId _ => some snapshotId
    | _ => none
  require (some verified = run.snapshotId) (.value "readmission_verification_snapshot_mismatch")
  let report : ReviewReport × Hash × ℕ ← view (.loadReviewReport runId)
  let imported ← readmissionEvent L runId run "REVIEW_IMPORTED" fun
    | .reviewImported verdict snapshotId sha256 bytes => some (verdict, snapshotId, sha256, bytes)
    | _ => none
  require (report.1.runId = runId ∧ some report.1.snapshotId = run.snapshotId ∧
      report.1.verdict = verdict ∧ run.reviewStatus = some verdict ∧
      imported = (verdict, run.snapshotId, report.2))
    (.value "readmission_review_evidence_changed")
  require (verdict = .needsFix →
      run.feedback = some (.review verdict report.1.findings run.snapshotId))
    (.value "readmission_feedback_evidence_changed")
  let isQuiescence : EventKind → Bool := fun
    | .cooperativeQuiescenceConfirmed => true
    | _ => false
  let isCheckpoint : EventKind → Bool := fun
    | .workerCheckpointRecorded _ => true
    | _ => false
  let _ ← readmissionEvent L runId run "COOPERATIVE_QUIESCENCE_CONFIRMED" fun kind =>
    if isQuiescence kind then some () else none
  require
    (∀ checkpoint ∈ eventAge L runId isCheckpoint, ∀ quiescence ∈ eventAge L runId isQuiescence,
      quiescence < checkpoint) (.value "readmission_process_state_unresolved")

/-! ### What admissions rely on -/

variable {L : Ledger} {sha : Sha256} {d d' : Disk} {reader : Reader} {outside : View}
  {times : RunId → RunTimes} {policy : RetentionPolicy} {now : ℚ} {runId : RunId} {run : Run}
  {taskId : TaskId} {task : Task} {payload : TaskPayload} {manifest : Manifest} {verdict : Verdict}
  {claimGitHead : Option CommitId} {claimBranch : Option String} {checks : List Check}

def repairKeys (runId : RunId) (checks : List Check) : List (ArtifactKind × String) :=
  (evidenceLogs runId checks).map fun name => (.log, name)

/-- The files a readmission accepts the evidence of the run on. -/
def readmissionKeys (runId : RunId) (checks : List Check) : List (ArtifactKind × String) :=
  (.workerReceipt, receiptName runId) :: (.reviewExport, runId) :: repairKeys runId checks

def Agree (keys : List (ArtifactKind × String)) (d d' : Disk) : Prop :=
  ∀ key ∈ keys, d'.node key.1 key.2 = d.node key.1 key.2

theorem evidenceManifest_congr (h : Agree (repairKeys runId checks) d d') :
    d'.verificationEvidenceManifest runId checks = d.verificationEvidenceManifest runId checks := by
  have hrecord : ∀ name ∈ evidenceLogs runId checks, ∀ errorId,
      d'.evidenceRecord name errorId = d.evidenceRecord name errorId := by
    intro name hname errorId
    have hnode := h (.log, name) (List.mem_map_of_mem hname)
    rw [Disk.evidenceRecord, Disk.evidenceRecord, hnode]
  have hchecks : ∀ cs : List Check, cs ⊆ checks →
      (cs.mapM fun check => do
        let item ← d'.evidenceRecord ((checkLog check).fileName runId) ("check:" ++ check.id)
        return (check.id, item) : Checked _) =
      cs.mapM fun check => do
        let item ← d.evidenceRecord ((checkLog check).fileName runId) ("check:" ++ check.id)
        return (check.id, item) := by
    intro cs hsub
    induction cs with
    | nil => rfl
    | cons check cs ih =>
      have hmem : (checkLog check).fileName runId ∈ evidenceLogs runId checks :=
        List.mem_cons_of_mem _ (List.mem_cons_of_mem _
          (List.mem_map_of_mem (hsub List.mem_cons_self)))
      rw [List.mapM_cons, List.mapM_cons, hrecord _ hmem,
        ih fun c hc => hsub (List.mem_cons_of_mem _ hc)]
  rw [Disk.verificationEvidenceManifest, Disk.verificationEvidenceManifest,
    hrecord _ List.mem_cons_self, hrecord _ (List.mem_cons_of_mem _ List.mem_cons_self),
    hchecks checks (List.Subset.refl _)]

/-- The evidence cannot be read unless all its logs are there. -/
theorem exists_of_evidenceManifest {evidence : VerificationEvidence}
    (h : d.verificationEvidenceManifest runId checks = .ok evidence) :
    ∀ key ∈ repairKeys runId checks, d.node key.1 key.2 ≠ none := by
  have hrecord : ∀ {name errorId record}, d.evidenceRecord name errorId = .ok record →
      d.node .log name ≠ none := by
    intro name errorId record hr hnone
    rw [Disk.evidenceRecord, hnone] at hr
    cases hr
  have hchecks : ∀ {cs : List Check} {items}, (cs.mapM fun check => do
        let item ← d.evidenceRecord ((checkLog check).fileName runId) ("check:" ++ check.id)
        return (check.id, item) : Checked (List (String × EvidenceRecord))) = .ok items →
      ∀ check ∈ cs, d.node .log ((checkLog check).fileName runId) ≠ none := by
    intro cs
    induction cs with
    | nil => exact fun _ _ hc => by cases hc
    | cons c cs ih =>
      intro items hitems check hc
      rw [List.mapM_cons] at hitems
      obtain ⟨_, hone, hitems⟩ := bind_eq_ok_iff.mp hitems
      obtain ⟨_, hrest, -⟩ := bind_eq_ok_iff.mp hitems
      obtain ⟨_, hone, -⟩ := bind_eq_ok_iff.mp hone
      rcases List.mem_cons.mp hc with rfl | hc
      · exact hrecord hone
      · exact ih hrest check hc
  rw [Disk.verificationEvidenceManifest] at h
  obtain ⟨_, hscope, h⟩ := bind_eq_ok_iff.mp h
  obtain ⟨_, hauthority, h⟩ := bind_eq_ok_iff.mp h
  obtain ⟨_, hitems, -⟩ := bind_eq_ok_iff.mp h
  rintro key hkey
  obtain ⟨name, hname, rfl⟩ := List.mem_map.mp hkey
  rcases List.mem_cons.mp hname with rfl | hname
  · exact hrecord hscope
  rcases List.mem_cons.mp hname with rfl | hname
  · exact hrecord hauthority
  · obtain ⟨check, hc, rfl⟩ := List.mem_map.mp hname
    exact hchecks hitems check hc

theorem repairClaimGuard_congr (h : Agree (repairKeys runId task.payload.checks) d d') :
    L.repairClaimGuard sha (d'.view reader outside) taskId task runId claimGitHead claimBranch =
      L.repairClaimGuard sha (d.view reader outside) taskId task runId claimGitHead
        claimBranch := by
  have he := evidenceManifest_congr h
  simp only [Ledger.repairClaimGuard, Disk.view]
  rw [he]

theorem repairClaimGuard_relies {snapshotId : SnapshotId}
    (h : L.repairClaimGuard sha (d.view reader outside) taskId task runId claimGitHead claimBranch =
      .ok snapshotId) : ∀ key ∈ repairKeys runId task.payload.checks,
        d.node key.1 key.2 ≠ none := by
  rw [Ledger.repairClaimGuard] at h
  -- The evidence is read after the row, the snapshot, the workspace and the index are checked.
  iterate 23 obtain ⟨_, _, h⟩ := bind_eq_ok_iff.mp h
  obtain ⟨_, hevidence, _⟩ := bind_eq_ok_iff.mp h
  exact exists_of_evidenceManifest hevidence

theorem readmissionRetainedEvidence_congr (h : Agree (readmissionKeys runId payload.checks) d d') :
    readmissionRetainedEvidence L (d'.view reader outside) runId run payload manifest verdict =
      readmissionRetainedEvidence L (d.view reader outside) runId run payload manifest verdict := by
  have he := evidenceManifest_congr fun key hkey =>
    h key (List.mem_cons_of_mem _ (List.mem_cons_of_mem _ hkey))
  have hreceipt : d'.loadWorkerReceipt reader runId = d.loadWorkerReceipt reader runId := by
    rw [Disk.loadWorkerReceipt, Disk.loadWorkerReceipt, h _ List.mem_cons_self]
  have hreport : d'.loadReviewReport reader runId = d.loadReviewReport reader runId := by
    rw [Disk.loadReviewReport, Disk.loadReviewReport,
      h _ (List.mem_cons_of_mem _ List.mem_cons_self)]
  simp only [readmissionRetainedEvidence, Disk.view]
  rw [he, hreceipt, hreport]

theorem readmissionRetainedEvidence_relies
    (h : readmissionRetainedEvidence L (d.view reader outside) runId run payload manifest verdict =
      .ok ()) : ∀ key ∈ readmissionKeys runId payload.checks, d.node key.1 key.2 ≠ none := by
  simp only [readmissionRetainedEvidence, Disk.view, bind_eq_ok_iff] at h
  obtain ⟨_, hreceipt, _, _, _, _, _, hevidence, _, _, _, _, _, _, _, hreport, _⟩ := h
  intro key hkey hnone
  rcases List.mem_cons.mp hkey with rfl | hkey
  · rw [Disk.loadWorkerReceipt, hnone] at hreceipt
    cases hreceipt
  rcases List.mem_cons.mp hkey with rfl | hkey
  · rw [Disk.loadReviewReport, hnone] at hreport
    cases hreport
  · exact exists_of_evidenceManifest hevidence key hkey hnone

/-! ### Pruning and admissions -/

section Admissions

variable (L sha reader outside d)

/-- The retained evidence of the run is accepted, as a readmission asks for it. -/
def EvidenceAccepted (runId : RunId) (checks : List Check) (verdict : Verdict) : Prop :=
  ∃ run task snapshotId manifest, RunOf L runId run task ∧ task.payload.checks = checks ∧
    L.readmissionSnapshot sha runId run task.payload = .ok (snapshotId, manifest) ∧
    readmissionRetainedEvidence L (d.view reader outside) runId run task.payload manifest verdict =
      .ok ()

/-- An admission that there now is relies on the file. -/
def Relied (key : ArtifactKind × String) : Prop :=
  (∃ taskId task runId claimGitHead claimBranch snapshotId,
    L.repairClaimGuard sha (d.view reader outside) taskId task runId claimGitHead claimBranch =
      .ok snapshotId ∧ key ∈ repairKeys runId task.payload.checks) ∨
  ∃ runId checks verdict, EvidenceAccepted L sha d reader outside runId checks verdict ∧
    key ∈ readmissionKeys runId checks

/-- What would have been admitted before would be admitted still. -/
structure KeepsAdmissions (d' : Disk) : Prop where
  repair : ∀ taskId task runId claimGitHead claimBranch snapshotId,
    L.repairClaimGuard sha (d.view reader outside) taskId task runId claimGitHead claimBranch =
        .ok snapshotId →
      L.repairClaimGuard sha (d'.view reader outside) taskId task runId claimGitHead claimBranch =
        .ok snapshotId
  readmission : ∀ runId checks verdict,
    EvidenceAccepted L sha d reader outside runId checks verdict →
    EvidenceAccepted L sha d' reader outside runId checks verdict

end Admissions

theorem keepsAdmissions_of_agree
    (h : ∀ key, Relied L sha d reader outside key → d'.node key.1 key.2 = d.node key.1 key.2) :
    KeepsAdmissions L sha d reader outside d' where
  repair taskId task runId claimGitHead claimBranch snapshotId hguard := by
    rw [repairClaimGuard_congr, hguard]
    intro key hkey
    exact h key (.inl ⟨taskId, task, runId, claimGitHead, claimBranch, snapshotId, hguard, hkey⟩)
  readmission runId checks verdict haccepted := by
    have hagree : Agree (readmissionKeys runId checks) d d' := fun key hkey =>
      h key (.inr ⟨runId, checks, verdict, haccepted, hkey⟩)
    obtain ⟨run, task, snapshotId, manifest, hrun, rfl, hsnapshot, haccepted⟩ := haccepted
    refine ⟨run, task, snapshotId, manifest, hrun, rfl, hsnapshot, ?_⟩
    rw [readmissionRetainedEvidence_congr hagree, haccepted]

theorem KeepsAdmissions.exists_of_relied (h : KeepsAdmissions L sha d reader outside d')
    {key : ArtifactKind × String} (hr : Relied L sha d reader outside key) :
    d'.node key.1 key.2 ≠ none := by
  rcases hr with ⟨taskId, task, runId, claimGitHead, claimBranch, snapshotId, hguard, hkey⟩ |
    ⟨runId, checks, verdict, haccepted, hkey⟩
  · exact repairClaimGuard_relies (h.repair _ _ _ _ _ _ hguard) key hkey
  · obtain ⟨_, _, _, _, _, rfl, _, haccepted⟩ := h.readmission _ _ _ haccepted
    exact readmissionRetainedEvidence_relies haccepted key hkey

/-- Pruning preserves what would be admitted, whatever fails, exactly when no run that is due has
a file that an admission relies on. -/
theorem pruneRetention_keepsAdmissions_iff : (∀ failures, KeepsAdmissions L sha d reader outside
      (pruneRetention policy failures L times d now).disk) ↔
    ∀ item, Due policy (now - 86400 * policy.olderThanDays) (retentionInventory L times d) item →
      ∀ a ∈ item.artifacts, ¬ Relied L sha d reader outside a.key := by
  have hinv := inventoryOf L times d
  have hT : terminalRuns (retentionInventory L times d) =
      terminalRuns (retentionInventory L times d) ++ [] := (List.append_nil _).symm
  constructor
  · intro h item hdue a ha hrelied
    have hnone : (pruneRetention policy (fun _ _ => none) L times d now).disk.node a.kind a.name =
        none := by
      obtain ⟨-, ⟨gone, hlacks, hgone⟩, -⟩ := passSound policy
        (now - 86400 * policy.olderThanDays) hinv hT
      have hmem : (a.kind, a.name) ∈ gone :=
        (hgone _).mpr ⟨item, hdue.1, hdue, List.mem_map_of_mem ha⟩
      exact (hlacks a.kind a.name).trans (if_pos hmem)
    exact (h fun _ _ => none).exists_of_relied hrelied hnone
  · intro h failures
    apply keepsAdmissions_of_agree
    intro key hrelied
    obtain ⟨-, hnode⟩ := pass_due policy
      (now - 86400 * policy.olderThanDays) failures hinv hT
    apply hnode key.1 key.2
    intro item hdue hkey
    obtain ⟨a, ha, he⟩ := List.mem_map.mp hkey
    exact h item hdue a ha (he ▸ hrelied)

namespace Scenario

/-- A host whose reviewer rejects what a run has made. -/
def rejecting : Host := fun n o =>
  match o with
  | .readPlan => .ok ("p", "d",
      [{ OrchKit.Scenario.payload {} "t" with requiredReview := true }])
  | .verificationEvidenceManifest .. => .ok
      ⟨⟨"t-A1-0-scope.json", "h", 10⟩, ⟨"t-A1-0-check-authority.json", "h", 10⟩, []⟩
  | .loadReviewReport runId => .ok (⟨runId, "s", .needsFix, []⟩, "r", 1)
  | .repairSourceCurrent .. => .ok ()
  | .itaVisibleStagedPaths _ => .ok (some [])
  | .capabilityPresent _ => .ok false
  | o => OrchKit.Scenario.host {} n o

/-- The only run has been verified and rejected. -/
def rejected : Ledger :=
  session (ledgerSemantics OrchKit.Scenario.sha) Command.script
    ([.loadPlan, .claim "w" none none, .submit "t-A1-0" "l", .quiesce "t-A1-0" "l",
      .verify "t-A1-0", .importReview "t-A1-0"].map fun c => (c, List.replicate 9 rejecting))
    Ledger.empty

/-- The two logs of its verification. -/
def logs : Disk where
  nodes := ((∅ : Table (ArtifactKind × String) Node).put (.log, LogKind.scope.fileName "t-A1-0")
    (.file ⟨⟨1, 2, 0o100600, 10, 0, 0⟩, "h"⟩)).put
      (.log, LogKind.checkAuthority.fileName "t-A1-0") (.file ⟨⟨1, 3, 0o100600, 10, 0, 0⟩, "h"⟩)
  writtenFor _ := some "t-A1-0"

def unread : Reader := ⟨fun _ => .error (.value "unused"), fun _ => .error (.value "unused")⟩

end Scenario

open OrchKit.Retention.Scenario in
/-- A run that could be repaired is pruned once it is old enough, and can be repaired no more. -/
theorem rejected_not_keepsAdmissions : ¬ KeepsAdmissions rejected OrchKit.Scenario.sha logs
    unread (rejecting 0)
      (pruneRetention {} (fun _ _ => none) rejected clock logs (86400 * 60)).disk := by
  intro h
  obtain ⟨task, -, hguard⟩ : ∃ task, rejected.tasks.lookup "t" = some task ∧
      rejected.repairClaimGuard OrchKit.Scenario.sha (logs.view unread (rejecting 0)) "t" task
        "t-A1-0" (some "c") (some "main") = .ok "s" := ⟨_, rfl, rfl⟩
  have hafter := repairClaimGuard_relies (h.repair _ _ _ _ _ _ hguard)
  refine hafter (.log, LogKind.scope.fileName "t-A1-0") List.mem_cons_self ?_
  decide +kernel

end OrchKit.Retention
