import OrchKit.Ledger.Claim

/-! # The transactions of a run

From the worker's submission to completion or abort, and the one that finalises a
publication. `verifyResult` is the second transaction of `verify`: what it knows of
the run was read by the first.
-/

namespace OrchKit

open Except

/-- `decide_review` of a task on a manifest. -/
def decision (payload : TaskPayload) (manifest : Manifest) (attempt : ℕ) :
    Except String ReviewDecision :=
  decideReview payload.review payload.requiredReview
    (manifest.files.map fun f => (f.1, f.2.bytes)) attempt

def CheckResult.passed (check : CheckResult) : Bool := check.exitCode == some 0 && !check.timedOut

namespace Ledger

/-- `require_execution_resolved` and `require_processes_resolved`. -/
def requireResolved (view : View) (runId : RunId) : Checked Unit := do
  view (.executionResolved runId)
  view (.processesResolved runId)

/-- The run under a lease, in the one state the command may leave. -/
def leasedRun (L : Ledger) (runId : RunId) (leaseToken : String) (state : RunState)
    (refusal : String) : Checked Run := do
  let run ← ofOption (L.runs.lookup runId) (.value "invalid_lease")
  require (run.leaseToken = leaseToken) (.value "invalid_lease")
  require (run.state = state) (.value refusal)
  return run

def checkpoint (L : Ledger) (runId : RunId) (leaseToken reason : String) :
    Checked (Reply × Ledger) := do
  require (strip reason ≠ "") (.value "checkpoint_reason_required")
  let run ← L.leasedRun runId leaseToken .running "run_not_running"
  let details := truncate 500 (strip reason)
  return ({ status := .checkpointed, runId := runId },
    { L with runCheckpoints := L.runCheckpoints.put runId details }.record
      (.workerCheckpointRecorded details) run.taskId runId)

def submit (L : Ledger) (host : Host) (runId : RunId) (leaseToken : String) (receipt : Receipt)
    (receiptSha256 : Hash) (receiptBytes : ℕ) : Checked (Reply × Ledger) := do
  let run ← L.leasedRun runId leaseToken .running "run_not_running"
  let task ← ofOption (L.tasks.lookup run.taskId) missingRow
  require (receipt.runId = runId ∧ receipt.taskId = run.taskId)
    (.value "receipt_identity_mismatch")
  require (receipt.changedPaths ≠ []) (.value "receipt_changed_paths_required")
  noneOf (receipt.changedPaths.filter fun p => ¬ pathAllowed p task.payload.allowedPaths)
    fun p => .value ("path_not_allowed:" ++ p)
  requireResolved (host 0) runId
  return ({ status := .resultSubmitted, runId := runId },
    (L.updateRun runId fun run =>
      { run with state := .resultSubmitted, receipt := receipt }).record
      (.resultSubmitted receipt.changedPaths receiptSha256 receiptBytes) run.taskId runId)

def quiesce (L : Ledger) (host : Host) (runId : RunId) (leaseToken : String) :
    Checked (Reply × Ledger) := do
  let run ← L.leasedRun runId leaseToken .resultSubmitted "result_not_submitted"
  requireResolved (host 0) runId
  return ({ status := .verifying, runId := runId },
    (L.updateRun runId fun run => { run with state := .verifying }).record
      .cooperativeQuiescenceConfirmed run.taskId runId)

def blockVerification (L : Ledger) (runId : RunId) (reason : String) :
    Checked (Reply × Ledger) := do
  let current ← ofOption (L.runs.lookup runId) (.value "run_not_verifying")
  require (current.state = .verifying) (.value "run_not_verifying")
  return ({ status := .blocked, runId := runId, reason := reason },
    ((L.updateRun runId fun run => { run with
        state := .blocked
        verifyStatus := some .blocked
        feedback := some (.verificationSafetyBlock reason)
        error := some (truncate 1000 reason) }).setStatus current.taskId .blocked).record
      (.verifySafetyBlock reason) current.taskId runId)

/-- The final transaction of `verify`, on the run and the payload its first read returned. -/
def verifyResult (L : Ledger) (sha : Sha256) (runId : RunId) (run : Run) (payload : TaskPayload)
    (manifest : Manifest) (checks : List CheckResult) : Checked (Reply × Ledger) := do
  let snapshotId := sha.snapshotId manifest
  let L := { L with snapshots := L.snapshots.put snapshotId ⟨runId, manifest⟩ }
  if checks.all CheckResult.passed then
    match decision payload manifest run.attempt with
    | .error message => .error (.value message)
    | .ok decision =>
      let nextState := if decision.required then RunState.reviewing else .verified
      let taskState := if decision.required then TaskStatus.waitingReview else .readyToPublish
      return ({ status := if decision.required then .reviewing else .verified, runId := runId },
        ((L.updateRun runId fun run => { run with
            state := nextState
            snapshotId := some snapshotId
            verifyStatus := some .pass }).setStatus run.taskId taskState).record
          (.verifyPass snapshotId decision) run.taskId runId)
  else
    return ({ status := .needsFix, runId := runId },
      ((L.updateRun runId fun run => { run with
          state := .needsFix
          snapshotId := some snapshotId
          verifyStatus := some .fail
          feedback := some (.verificationFailure checks snapshotId) }).setStatus
        run.taskId .needsFix).record (.verifyFail snapshotId checks) run.taskId runId)

def importReview (L : Ledger) (runId : RunId) (report : ReviewReport) (reportSha256 : Hash)
    (reportBytes : ℕ) : Checked (Reply × Ledger) := do
  let run ← ofOption (L.runs.lookup runId) (.value "run_not_reviewing")
  require (run.state = .reviewing) (.value "run_not_reviewing")
  require (report.runId = runId ∧ some report.snapshotId = run.snapshotId) (.value "stale_review")
  let event := EventKind.reviewImported report.verdict run.snapshotId reportSha256 reportBytes
  if report.verdict = .pass then
    return ({ status := .pass, runId := runId },
      ((L.updateRun runId fun run => { run with
          state := .verified
          reviewStatus := some .pass }).setStatus run.taskId .readyToPublish).record
        event run.taskId runId)
  else
    return ({ status := if report.verdict = .needsFix then .needsFix else .blocked,
              runId := runId },
      ((L.updateRun runId fun row => { row with
          state := .needsFix
          reviewStatus := some report.verdict
          feedback := some (.review report.verdict report.findings run.snapshotId) }).setStatus
        run.taskId (if report.verdict = .needsFix then .needsFix else .blocked)).record
        event run.taskId runId)

/-- The manifest of a run's snapshot, once the workspace is known to match it still. -/
def snapshotCurrent (L : Ledger) (view : View) (run : Run) (payload : TaskPayload) :
    Checked Manifest := do
  let snap ← ofOption (run.snapshotId.bind fun id => L.snapshots.lookup id)
    (.value "snapshot_missing")
  view (.assertManifestCurrent payload snap.manifest)
  return snap.manifest

/-- The owner has approved the very snapshot the run is at. -/
def approved (L : Ledger) (runId : RunId) (run : Run) : Bool :=
  (L.approvals.lookup runId).any fun approval => some approval.snapshotId = run.snapshotId

def complete (L : Ledger) (host : Host) (runId : RunId) : Checked (Reply × Ledger) := do
  let run ← ofOption (L.runs.lookup runId) (.value "run_not_verified")
  require (run.state = .verified) (.value "run_not_verified")
  let task ← ofOption (L.tasks.lookup run.taskId) missingRow
  let _ ← L.snapshotCurrent (host 0) run task.payload
  if task.payload.ownerAcceptance ∧ ¬ L.approved runId run then
    return ({ status := .waitingOwner, runId := runId }, L.setStatus run.taskId .waitingOwner)
  if task.payload.publication.kind ≠ .none then
    return ({ status := .publicationRequired, runId := runId }, L)
  return ({ status := .complete, runId := runId, taskId := run.taskId },
    ((L.updateRun runId fun run => { run with state := .complete }).setStatus
      run.taskId .done).record .runComplete run.taskId runId)

def approve (L : Ledger) (host : Host) (runId : RunId) (note : String) :
    Checked (Reply × Ledger) := do
  let run ← ofOption (L.runs.lookup runId) (.value "run_not_approvable")
  require (run.state = .verified) (.value "run_not_approvable")
  let snapshotId ← ofOption run.snapshotId (.value "run_not_approvable")
  let task ← ofOption (L.tasks.lookup run.taskId) missingRow
  require task.payload.ownerAcceptance (.value "owner_approval_not_required")
  let _ ← L.snapshotCurrent (host 0) run task.payload
  return ({ status := .approved, runId := runId },
    ({ L with approvals := L.approvals.put runId ⟨snapshotId, truncate 500 note⟩ }.setStatus
      run.taskId .readyToPublish).record (.ownerApproved snapshotId) run.taskId runId)

def abort (L : Ledger) (host : Host) (runId : RunId) (reason : String)
    (retry processInactivityConfirmed : Bool) : Checked (Reply × Ledger) := do
  let run ← ofOption (L.runs.lookup runId) (.value "run_not_active")
  require (run.state ∈ activeRunStates) (.value "run_not_active")
  let checkpoint := (L.runCheckpoints.lookup runId).isSome
  require (¬ (run.state = .running ∧ checkpoint ∧ ¬ processInactivityConfirmed))
    (.value "process_inactivity_confirmation_required")
  requireResolved (host 0) runId
  let status := if retry then TaskStatus.needsFix else .blocked
  return ({ status := .aborted, runId := runId },
    ((L.updateRun runId fun run => { run with
        state := .aborted
        error := some (truncate 1000 reason) }).setStatus run.taskId status).record
      (.runAborted (truncate 500 reason) retry checkpoint
        (checkpoint && processInactivityConfirmed)) run.taskId runId)

def finalizePublication (L : Ledger) (runId : RunId) (taskId : TaskId) (commitId : CommitId)
    (remoteCommit : Option CommitId) (kind : PublicationKind) : Checked (Reply × Ledger) :=
  let publications := L.publications.modify runId fun row => { row with
    status := .complete
    commitId := some commitId
    remoteCommit := remoteCommit
    error := none }
  .ok ({ status := .complete, commit := commitId, remoteCommit := remoteCommit },
    (({ L with publications := publications }.updateRun runId fun run =>
      { run with state := .complete }).setStatus taskId .done).record
      (.published commitId kind remoteCommit) taskId runId)

end Ledger

end OrchKit
