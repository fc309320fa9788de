import OrchKit.Ledger.Readmission
import OrchKit.Program.Logic

/-! # Atomic operations

A command reaches the ledger by single statements, each in a connection of its own
mode, and by immediate transactions; everything else it does is outside. Each of
these is one atomic step. A write to a publication row carries `seen`, the row as
the issuing call last read or wrote it; no statement looks at it, but it tells a
write that is based on the current row from one that is not.
-/

namespace OrchKit

open Program

structure PublicationPatch where
  status : PublicationStatus
  stagedPaths : Option (List Path) := none
  commitId : Option CommitId := none
  remoteCommit : Option CommitId := none
  error : Option String := none
deriving DecidableEq

/-- `UPDATE publications SET ...`, where only the status and the error are replaced by null. -/
def PublicationPatch.apply (patch : PublicationPatch) (row : Publication) : Publication :=
  { row with
    status := patch.status
    stagedPaths := patch.stagedPaths.or row.stagedPaths
    commitId := patch.commitId.or row.commitId
    remoteCommit := patch.remoteCommit.or row.remoteCommit
    error := patch.error }

inductive Txn
  | loadPlan (revision : String) (digest : Hash) (tasks : List TaskPayload)
  | readmit (previousRunId dependencyRunId : RunId) (revision : String) (digest : Hash)
      (task : TaskPayload)
  | pauseProject (projectId : ProjectId) (reason : String)
  | resumeProject (projectId : ProjectId)
  | recordProjectRemoved (projectId : ProjectId)
  | cancelTask (taskId : TaskId) (reason : String)
  | claim (workerId : String) (projectId : Option ProjectId) (repairFromRunId : Option RunId)
  | capabilityCreateFailed (runId : RunId) (taskId : TaskId) (failure : String)
  | createGrant (spec : LifecycleGrantSpec)
  | revokeGrant (grantId : String)
  | reserveGrant (grantId operationId : String)
  | consumeGrant (grantId operationId : String)
  | readyGrant (grantId operationId : String) (runId : RunId) (attempt : ℕ)
  | recordCheckpoint (grantId operationId reason processState : String) (runId : RunId)
      (attempt : ℕ) (grant : Grant) (claim : LifecycleOperation)
  | checkpoint (runId : RunId) (leaseToken reason : String)
  | submit (runId : RunId) (leaseToken : String) (receipt : Receipt) (receiptSha256 : Hash)
      (receiptBytes : ℕ)
  | quiesce (runId : RunId) (leaseToken : String)
  | blockVerification (runId : RunId) (reason : String)
  | verifyResult (runId : RunId) (run : Run) (payload : TaskPayload) (manifest : Manifest)
      (checks : List CheckResult)
  | importReview (runId : RunId) (report : ReviewReport) (reportSha256 : Hash) (reportBytes : ℕ)
  | complete (runId : RunId)
  | approve (runId : RunId) (note : String)
  | abort (runId : RunId) (reason : String) (retry processInactivityConfirmed : Bool)
  | finalizePublication (runId : RunId) (taskId : TaskId) (commitId : CommitId)
      (remoteCommit : Option CommitId) (kind : PublicationKind) (seen : Option Publication)

namespace Txn

def run (sha : Sha256) (host : Host) (L : Ledger) : Txn → Checked (Reply × Ledger)
  | loadPlan revision digest tasks => L.loadPlan revision digest tasks
  | readmit previous dependency revision digest task =>
    L.readmit sha host previous dependency revision digest task
  | pauseProject projectId reason => L.pauseProject projectId reason
  | resumeProject projectId => L.resumeProject projectId
  | recordProjectRemoved projectId => L.recordProjectRemoved projectId
  | cancelTask taskId reason => L.cancelTask taskId reason
  | claim workerId projectId repairFromRunId =>
    L.claim sha host workerId projectId repairFromRunId
  | capabilityCreateFailed runId taskId failure => L.capabilityCreateFailed runId taskId failure
  | createGrant spec => L.createGrant sha host spec
  | revokeGrant grantId => L.revokeGrant grantId
  | reserveGrant grantId operationId => L.reserveGrant sha grantId operationId
  | consumeGrant grantId operationId => L.consumeGrant sha host grantId operationId
  | readyGrant grantId operationId runId attempt =>
    L.readyGrant sha host grantId operationId runId attempt
  | recordCheckpoint grantId operationId reason processState runId attempt grant record =>
    L.recordCheckpoint sha host grantId operationId reason processState runId attempt grant record
  | checkpoint runId leaseToken reason => L.checkpoint runId leaseToken reason
  | submit runId leaseToken receipt sha256 bytes =>
    L.submit host runId leaseToken receipt sha256 bytes
  | quiesce runId leaseToken => L.quiesce host runId leaseToken
  | blockVerification runId reason => L.blockVerification runId reason
  | verifyResult runId run payload manifest checks =>
    L.verifyResult sha runId run payload manifest checks
  | importReview runId report sha256 bytes => L.importReview runId report sha256 bytes
  | complete runId => L.complete host runId
  | approve runId note => L.approve host runId note
  | abort runId reason retry confirmed => L.abort host runId reason retry confirmed
  | finalizePublication runId taskId commitId remoteCommit kind _ =>
    L.finalizePublication runId taskId commitId remoteCommit kind

end Txn

inductive Op
  | selectRun (runId : RunId)
  | selectTask (taskId : TaskId)
  | selectSnapshot (snapshotId : SnapshotId)
  | selectApproval (runId : RunId)
  | selectPublication (runId : RunId)
  | selectGrant (grantId : String)
  | selectOperation (grantId operationId : String)
  | matchTask (spec : LifecycleGrantSpec)
  | operationDigest (operationId : String)
  | deletePublication (runId : RunId) (seen : Option Publication)
  | insertPublication (runId : RunId) (row : Publication) (seen : Option Publication)
  | updatePublication (runId : RunId) (patch : PublicationPatch) (seen : Option Publication)
  | setPaused (details : Option String)
  | insertEvent (kind : EventKind)
  | prepareCheckpoint (grantId operationId reason processState : String) (runId : RunId)
      (attempt : ℕ)
  | transaction (t : Txn)
  | outside (o : Outside)

abbrev Op.Ans : Op → Type
  | selectRun _ => Option Run
  | selectTask _ => Option Task
  | selectSnapshot _ => Option Snapshot
  | selectApproval _ => Option Approval
  | selectPublication _ => Option Publication
  | selectGrant _ => Checked (Option Grant)
  | selectOperation .. => Checked (Option LifecycleOperation)
  | matchTask _ => Bool
  | operationDigest _ => Hash
  | deletePublication .. => Unit
  | insertPublication .. => Checked Unit
  | updatePublication .. => Unit
  | setPaused _ => Unit
  | insertEvent _ => Unit
  | prepareCheckpoint .. => Checked CheckpointStart
  | transaction _ => Checked Reply
  | outside o => Checked o.Value

abbrev orchSig : Sig := ⟨Op, Op.Ans⟩

/-- The ledger under atomic operations, the outside answering as it pleases. A transaction that
raises leaves the ledger as it was. -/
def ledgerSemantics (sha : Sha256) : Semantics orchSig Ledger Host where
  answer host L
    | .selectRun runId => (L.runs.lookup runId, L)
    | .selectTask taskId => (L.tasks.lookup taskId, L)
    | .selectSnapshot snapshotId => (L.snapshots.lookup snapshotId, L)
    | .selectApproval runId => (L.approvals.lookup runId, L)
    | .selectPublication runId => (L.publications.lookup runId, L)
    | .selectGrant grantId => (L.loadGrant grantId, L)
    | .selectOperation grantId operationId => (L.loadOperation grantId operationId, L)
    | .matchTask spec => (L.grantMatches sha spec, L)
    | .operationDigest operationId => (sha.operationId operationId, L)
    | .deletePublication runId _ => ((), { L with publications := L.publications.delete runId })
    | .insertPublication runId row _ =>
      if L.publications.lookup runId = none then
        (.ok (), { L with publications := L.publications.put runId row })
      else
        (.error (.other "IntegrityError" "UNIQUE constraint failed: publications.run_id"), L)
    | .updatePublication runId patch _ =>
      ((), { L with publications := L.publications.modify runId patch.apply })
    | .setPaused details => ((), { L with paused := details })
    | .insertEvent kind => ((), L.record kind)
    | .prepareCheckpoint grantId operationId reason processState runId attempt =>
      match L.prepareCheckpoint sha host grantId operationId reason processState runId attempt with
      | .ok (start, L') => (.ok start, L')
      | .error e => (.error e, L)
    | .transaction t =>
      match t.run sha host L with
      | .ok (reply, L') => (.ok reply, L')
      | .error e => (.error e, L)
    | .outside o => (host 0 o, L)

end OrchKit
