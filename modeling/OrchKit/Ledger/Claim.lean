import OrchKit.Ledger.Queue

/-! # Claiming

A claim scans the queue for the first task that may start, checks the workspace
before and after the context pack is built, and inserts a running run under the
task's writer key. A repair claim names a rejected run instead and continues its
task; a lifecycle claim is a claim of one particular task under a grant.
-/

namespace OrchKit

open Except

namespace Ledger

def latestRun (L : Ledger) (taskId : TaskId) : Option RunId :=
  (((L.runs.entries.filter fun e => e.2.taskId = taskId).insertionSort
    fun a b => b.2.attempt ≤ a.2.attempt).map Sigma.fst).head?

def runsUnder (L : Ledger) (key : WriterKey) : List RunId :=
  (L.runs.entries.filter fun e =>
    (L.tasks.lookup e.2.taskId).any (·.payload.writerKey = key)).map Sigma.fst

def isKind (kind : EventKind → Bool) (event : Event) : Bool := kind event.kind

/-! ### Context packs -/

/-- The proof a task was readmitted on, if it was. -/
def readmissionProof (L : Ledger) (taskId : TaskId) : Option ReadmissionProof :=
  L.events.findSome? fun event =>
    match event.kind with
    | .taskReadmitted proof => if event.taskId = some taskId then some proof else none
    | _ => none

/-- The latest attempt of a task that left feedback, other than `except`. -/
def previousAttempt (L : Ledger) (taskId : TaskId) (excluded : Option RunId) :
    Option (RunId × Run) :=
  (((L.runs.entries.filter fun e =>
      e.2.taskId = taskId ∧ some e.1 ≠ excluded ∧ e.2.feedback.isSome).insertionSort
    fun a b => b.2.attempt ≤ a.2.attempt).map fun e => (e.1, e.2)).head?

def buildContextPack (L : Ledger) (view : View) (taskId : TaskId) (task : Task) (runId : RunId)
    (attempt : ℕ) (claimGitHead : Option CommitId) (runPersisted : Bool) :
    Checked ContextPack := do
  let readmission := L.readmissionProof taskId
  require (∀ proof ∈ readmission, some proof.dependencyCommit = claimGitHead)
    (.value "readmission_claim_base_mismatch")
  let previous :=
    (L.previousAttempt taskId (if runPersisted then some runId else none)).or
      (readmission.bind fun proof =>
        (L.runs.lookup proof.previousRunId).map fun run => (proof.previousRunId, run))
  let pack : ContextPack := {
    runId := runId
    taskId := taskId
    attempt := attempt
    planRevision := task.planRevision
    queueSeq := task.queueSeq
    claimGitHead := claimGitHead
    payload := task.payload
    feedback := previous.bind (·.2.feedback)
    previousRunId := previous.map (·.1)
    previousSnapshotId := previous.bind (·.2.snapshotId)
    readmission := readmission }
  let size : ℕ ← view (.packSize pack)
  require (size ≤ 32768) (.value ("context_pack_too_large:" ++ toString size))
  return pack

/-- `context`: the pack of a run, built again from the rows as they are by then. -/
def context (L : Ledger) (view : View) (runId : RunId) : Checked ContextPack := do
  let run ← ofOption (L.runs.lookup runId) (.value "unknown_run")
  let task ← ofOption (L.tasks.lookup run.taskId) missingRow
  L.buildContextPack view run.taskId task runId run.attempt run.claimGitHead true

/-! ### Admission of a repair -/

def fileRecordValid (payload : TaskPayload) (relative : Path) (recorded : FileRecord) : Bool :=
  normalizeRelativePath relative = .ok relative && pathAllowed relative payload.allowedPaths &&
    relative ∉ payload.protectedPaths.map Prod.fst &&
    if recorded.deleted then recorded = ⟨true, none, 0, none⟩
    else recorded.sha256.isSome && recorded.mode.isSome

/-- `_repair_claim_guard`: the snapshot the named run was rejected on is still what the
workspace holds, and nothing else has happened to its task. -/
def repairClaimGuard (L : Ledger) (sha : Sha256) (view : View) (taskId : TaskId) (task : Task)
    (priorRunId : RunId) (claimGitHead : Option CommitId) (claimBranch : Option String) :
    Checked SnapshotId := do
  let payload := task.payload
  require (L.tasks.lookup taskId = some task) (.value "repair_task_changed")
  let prior ← ofOption (L.runs.lookup priorRunId) (.value "repair_run_not_latest")
  require (prior.taskId = taskId ∧ L.latestRun taskId = some priorRunId)
    (.value "repair_run_not_latest")
  require (prior.state = .needsFix ∧ prior.verifyStatus = some .pass)
    (.value "repair_run_not_verified_needs_fix")
  let snapshotId ← ofOption prior.snapshotId (.value "repair_snapshot_missing")
  let snap ← ofOption (L.snapshots.lookup snapshotId) (.value "repair_snapshot_run_mismatch")
  require (snap.runId = priorRunId) (.value "repair_snapshot_run_mismatch")
  let manifest := snap.manifest
  require (manifest.verificationEvidence.isSome ∧ snapshotId = sha.snapshotId manifest)
    (.value "repair_snapshot_binding_invalid")
  require (manifest.workspace = payload.workspace) (.value "repair_snapshot_workspace_mismatch")
  require (prior.claimGitHead.isSome ∧ claimGitHead.isSome ∧ claimBranch.isSome)
    (.value "repair_claim_git_identity_missing")
  require (prior.claimGitHead = claimGitHead ∧ manifest.gitHead = claimGitHead)
    (.value "repair_snapshot_base_mismatch")
  let claimed := L.events.findSome? fun event =>
    match event.kind with
    | .runClaimed _ _ _ _ _ _ branch _ =>
      if event.runId = some priorRunId then some (event.taskId, branch) else none
    | _ => none
  require (∀ c ∈ claimed, c.2.isSome) (.value "repair_claim_git_identity_missing")
  require (claimed = some (some taskId, claimBranch)) (.value "repair_snapshot_branch_mismatch")
  require (manifest.files ≠ []) (.value "repair_snapshot_files_invalid")
  manifest.files.forM fun (relative, recorded) => do
    require (fileRecordValid payload relative recorded) (.value "repair_snapshot_files_invalid")
    view (.repairSourceCurrent payload relative recorded.sha256 (some recorded))
  let receipt ← ofOption prior.receipt (.value "repair_snapshot_receipt_mismatch")
  require (receipt.runId = priorRunId ∧ receipt.taskId = taskId ∧
      sorted receipt.changedPaths = manifest.changed) (.value "repair_snapshot_receipt_mismatch")
  require (manifest.protectedFiles =
      payload.protectedPaths.map fun p => (p.1, ⟨p.2, some p.2, true⟩))
    (.value "repair_snapshot_protected_mismatch")
  payload.protectedPaths.forM fun (relative, expected) =>
    view (.repairSourceCurrent payload relative (some expected) none)
  let staged : Option (List Path) ← view (.itaVisibleStagedPaths payload)
  require (staged = some []) (.value "repair_index_not_empty")
  let scope : ScopeEvidence ← view (.workspaceScopeEvidence payload manifest.changed)
  require (scope.status = .pass ∧ scope.gitHead = claimGitHead)
    (.value "repair_workspace_scope_changed")
  let evidence : VerificationEvidence ← view (.retainedEvidenceManifest priorRunId payload.checks)
  require (some evidence = manifest.verificationEvidence)
    (.value "repair_verification_evidence_changed")
  refuse (← view (.checkAuthorityEvidence payload))
  (payload.checks.flatMap Check.authorityFiles).forM fun binding =>
    if binding.expected = .file then
      view (.repairSourceCurrent payload binding.path binding.sha256 none)
    else
      .ok ()
  (L.runsUnder payload.writerKey).forM fun runId => do
    let present : Bool ← view (.capabilityPresent runId)
    require (¬ present) (.value "repair_previous_capability_present")
  require (∀ runId ∈ L.runsUnder payload.writerKey, ∀ row ∈ L.publications.lookup runId,
      row.status = .complete ∨ row.status = .abandoned) (.value "repair_publication_pending")
  let history := L.events.filter fun event => event.taskId = some taskId
  if task.status = .blocked then
    require (history.head?.any (isKind fun
        | .taskBlockedAtClaim reason _ =>
          reason = "claim_workspace_dirty:" ++ manifest.changed.headD ""
        | _ => false) ∧
      history.tail.head?.any fun before => before.runId = some priorRunId ∧
        isKind (fun | .reviewImported .needsFix sid _ _ => sid = some snapshotId | _ => false)
          before) (.value "repair_task_not_dirty_claim_blocked")
  else
    require (task.status = .needsFix) (.value "repair_task_not_needs_fix")
  return snapshotId

/-! ### The claim transaction -/

def lockOf (locks : List (RunId × Run × Task)) (key : WriterKey) : Option RunId :=
  (locks.reverse.find? fun e => e.2.2.payload.writerKey = key).map (·.1)

/-- What a scan of the queue has found so far. -/
structure Scan where
  selected : Option (TaskId × Task × ℕ) := none
  blockedLocks : List RunId := []
  pausedProjects : List ProjectId := []

/-- Scan the queue for the first task that may start; a ready task whose attempts are spent is
blocked on the way. -/
def scanQueue (projectId : Option ProjectId) (locks : List (RunId × Run × Task)) :
    List (TaskId × Task) → Ledger → Scan → Scan × Ledger
  | [], L, scan => (scan, L)
  | (taskId, row) :: rows, L, scan =>
    if row.status ∉ readyTaskStates then
      scanQueue projectId locks rows L scan
    else if projectId.isSome ∧ row.payload.projectId ≠ projectId then
      scanQueue projectId locks rows L scan
    else
      match row.payload.projectId.filter fun p => (L.projectPauses.lookup p).isSome with
      | some p =>
        scanQueue projectId locks rows L { scan with pausedProjects := scan.pausedProjects ++ [p] }
      | none =>
        if ¬ L.dependenciesDone row.payload then
          scanQueue projectId locks rows L scan
        else if L.attempts taskId ≥ row.payload.maxAttempts then
          scanQueue projectId locks rows
            ((L.setStatus taskId .blocked).record (.taskBlockedMaxAttempts (L.attempts taskId))
              taskId) scan
        else
          match lockOf locks row.payload.writerKey with
          | some lock =>
            scanQueue projectId locks rows L
              { scan with blockedLocks := scan.blockedLocks ++ [lock] }
          | none => ({ scan with selected := some (taskId, row, L.attempts taskId + 1) }, L)

/-- The identity of the workspace a claim starts from, and that it is fit to start from. -/
def claimPreflight (host : Host) (payload : TaskPayload) :
    Checked (Option CommitId × Option String) := do
  if payload.publication.kind ≠ .none then
    let identity : Option CommitId × Option String ← host 0 (.claimGitState payload none)
    let guard : ClaimGuard ← host 1 (.claimWorkspaceGuard payload identity.1)
    refuse guard.refusal
    return identity
  else
    let guard : ClaimGuard ← host 0 (.claimWorkspaceGuard payload none)
    refuse guard.refusal
    host 1 (.claimGitState payload guard.scope)

/-- The workspace is still what the preflight saw. -/
def claimRecheck (host : Host) (payload : TaskPayload) (claimGitHead : Option CommitId)
    (claimBranch : Option String) : Checked Unit := do
  let guard : ClaimGuard ← host 3 (.claimWorkspaceGuard payload claimGitHead)
  refuse guard.refusal
  let current : Option CommitId × Option String ←
    match host 4 (.claimGitState payload guard.scope) with
    | .error (.value "claim_branch_mismatch") =>
      .error (.value "claim_branch_changed_during_preflight")
    | answer => answer
  require (current.1 = claimGitHead) (.value "claim_git_head_changed_during_preflight")
  require (current.2 = claimBranch) (.value "claim_branch_changed_during_preflight")

def newRunId (taskId : TaskId) (attempt : ℕ) (uuidHex : String) : RunId :=
  taskId ++ "-A" ++ toString attempt ++ "-" ++ truncate 10 uuidHex

/-- Insert a running run and move its task on; a run id is a primary key. -/
def startRun (L : Ledger) (runId : RunId) (run : Run) (task : Task) (claimBranch : Option String)
    (repair : Option (RunId × SnapshotId)) : Checked Ledger := do
  require (L.runs.lookup runId = none)
    (.other "IntegrityError" "UNIQUE constraint failed: runs.run_id")
  return ({ L with runs := L.runs.put runId run }.setStatus run.taskId .inProgress).record
    (.runClaimed run.attempt run.workerId task.payload.projectId task.payload.writerKey
      task.queueSeq run.claimGitHead claimBranch repair) run.taskId runId

def blockAtClaim (L : Ledger) (taskId : TaskId) (task : Task) (kind : EventKind)
    (reason : String) : Reply × Ledger :=
  ({ status := .blocked, taskId := taskId, projectId := task.payload.projectId, reason := reason },
    (L.setStatus taskId .blocked).record kind taskId)

def claimQueued (L : Ledger) (host : Host) (workerId : String) (projectId : Option ProjectId) :
    Checked (Reply × Ledger) := do
  let (scan, L) := scanQueue projectId L.activeWriterLocks L.queue L {}
  match scan.selected with
  | none =>
    match scan.blockedLocks, scan.pausedProjects with
    | lock :: _, _ => return ({ status := .busy, runId := lock }, L)
    | [], _ :: _ => return ({ status := .projectsPaused, projectId := projectId }, L)
    | [], [] => return ({ status := .noWork, projectId := projectId }, L)
  | some (taskId, task, attempt) =>
    match ← catchValue (claimPreflight host task.payload) with
    | .error reason =>
      return blockAtClaim L taskId task (.taskBlockedAtClaim reason task.payload.projectId) reason
    | .ok (claimGitHead, claimBranch) =>
      let uuid : String ← host 2 .uuidHex
      let runId := newRunId taskId attempt uuid
      let rechecked : Checked ContextPack := do
        let pack ← L.buildContextPack (host 2) taskId task runId attempt claimGitHead false
        claimRecheck host task.payload claimGitHead claimBranch
        return pack
      match ← catchValue rechecked with
      | .error reason =>
        return blockAtClaim L taskId task (.taskBlockedContext reason task.payload.projectId) reason
      | .ok pack =>
        let lease : String ← host 5 .tokenUrlsafe
        let now : Time ← host 0 .utcNow
        let run : Run := ⟨taskId, attempt, workerId, .running, lease, now, claimGitHead,
          none, none, none, none, none, none⟩
        let L ← L.startRun runId run task claimBranch none
        return ({ status := .claimed, runId := runId, taskId := taskId,
                  projectId := task.payload.projectId, lease := lease, attempt := attempt,
                  context := pack }, L)

/-- A repair refuses without touching the ledger. -/
def claimRepair (L : Ledger) (sha : Sha256) (host : Host) (workerId : String)
    (projectId : Option ProjectId) (priorRunId : RunId) : Checked (Reply × Ledger) := do
  match L.runs.lookup priorRunId with
  | none => return ({ status := .blocked, reason := "repair_run_missing" }, L)
  | some prior =>
    match L.tasks.lookup prior.taskId with
    | none => return ({ status := .noWork, projectId := projectId }, L)
    | some task =>
      let taskId := prior.taskId
      let blocked (reason : String) : Reply :=
        { status := .blocked, taskId := taskId, projectId := task.payload.projectId,
          reason := reason }
      if projectId.isSome ∧ task.payload.projectId ≠ projectId then
        return (blocked "repair_project_mismatch", L)
      if task.payload.projectId.any fun p => (L.projectPauses.lookup p).isSome then
        return ({ status := .projectPaused, projectId := task.payload.projectId }, L)
      if ¬ L.dependenciesDone task.payload then
        return (blocked "repair_dependencies_not_done", L)
      if L.attempts taskId ≥ task.payload.maxAttempts then
        return (blocked "repair_max_attempts", L)
      match lockOf L.activeWriterLocks task.payload.writerKey with
      | some lock => return ({ status := .busy, runId := lock }, L)
      | none =>
        let admission (first second : View) : Checked
            (SnapshotId × Option CommitId × Option String) := do
          let identity : Option CommitId × Option String ←
            first (.claimGitState task.payload none)
          let snapshotId ← L.repairClaimGuard sha second taskId task priorRunId identity.1
            identity.2
          return (snapshotId, identity)
        match ← catchValue (admission (host 0) (host 1)) with
        | .error reason => return (blocked reason, L)
        | .ok (_, claimGitHead, _) =>
          let attempt := L.attempts taskId + 1
          let uuid : String ← host 2 .uuidHex
          let runId := newRunId taskId attempt uuid
          let rechecked : Checked (ContextPack × SnapshotId × Option CommitId × Option String) := do
            let pack ← L.buildContextPack (host 2) taskId task runId attempt claimGitHead false
            return (pack, ← admission (host 3) (host 4))
          match ← catchValue rechecked with
          | .error reason => return (blocked reason, L)
          | .ok (pack, snapshotId, claimGitHead, claimBranch) =>
            let lease : String ← host 5 .tokenUrlsafe
            let now : Time ← host 0 .utcNow
            let run : Run := ⟨taskId, attempt, workerId, .running, lease, now, claimGitHead,
              none, none, none, none, none, none⟩
            let L ← L.startRun runId run task claimBranch (some (priorRunId, snapshotId))
            return ({ status := .claimed, runId := runId, taskId := taskId,
                      projectId := task.payload.projectId, lease := lease, attempt := attempt,
                      context := pack }, L)

def claim (L : Ledger) (sha : Sha256) (host : Host) (workerId : String)
    (projectId : Option ProjectId) (repairFromRunId : Option RunId) : Checked (Reply × Ledger) := do
  require (∀ p ∈ projectId, isProjectId p) (.value "invalid_project_id")
  require (∀ r ∈ repairFromRunId, isIdentifier r) (.value "invalid_run_id")
  match L.paused with
  | some details => return ({ status := .paused, reason := details }, L)
  | none =>
    if projectId.any fun p => (L.projectPauses.lookup p).isSome then
      return ({ status := .projectPaused, projectId := projectId }, L)
    match repairFromRunId with
    | none => L.claimQueued host workerId projectId
    | some priorRunId => L.claimRepair sha host workerId projectId priorRunId

/-- The transaction that takes a claim back when its capability could not be written. -/
def capabilityCreateFailed (L : Ledger) (runId : RunId) (taskId : TaskId) (failure : String) :
    Checked (Reply × Ledger) :=
  .ok ({ status := .blocked, taskId := taskId, runId := runId,
         reason := "capability_create_failed" },
    ((L.updateRun runId fun run => { run with state := .aborted, error := failure }).setStatus
      taskId .blocked).record (.runCapabilityCreateFailed failure) taskId runId)

end Ledger

end OrchKit
