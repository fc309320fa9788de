import OrchKit.Data.Table
import OrchKit.Ledger.Review

/-! # The ledger

The rows of the durable ledger, with the enumerations their columns range over. A
writer lock is not a row of its own: a writer key is held as long as some run under
it is in one of `writerLockRunStates`.
-/

namespace OrchKit

abbrev TaskId := String
abbrev RunId := String
abbrev ProjectId := String
abbrev WriterKey := String
abbrev SnapshotId := String
abbrev CommitId := String
abbrev Hash := String
abbrev Time := String

/-- Texts that are equal character by character are equal. -/
instance lawfulBEqText : LawfulBEq (List Char) := inferInstance

inductive RunState
  | running
  | resultSubmitted
  | quiescing
  | verifying
  | reviewing
  | verified
  | needsFix
  | blocked
  | aborted
  | complete
deriving DecidableEq

def activeRunStates : List RunState :=
  [.running, .resultSubmitted, .quiescing, .verifying, .reviewing]

def writerLockRunStates : List RunState := activeRunStates ++ [.verified]

inductive TaskStatus
  | planned
  | ready
  | inProgress
  | waitingReview
  | waitingOwner
  | readyToPublish
  | needsFix
  | blocked
  | done
  | cancelled
deriving DecidableEq

def readyTaskStates : List TaskStatus := [.planned, .ready, .needsFix]

inductive VerifyStatus
  | pass
  | fail
  | blocked
deriving DecidableEq

inductive Verdict
  | pass
  | needsFix
  | blocked
deriving DecidableEq

inductive PublicationKind
  | none
  | git
  | gitLocal
deriving DecidableEq

inductive PublicationStatus
  | intent
  | staged
  | prepared
  | committed
  | pushed
  | remoteVerified
  | complete
  | abandoned
deriving DecidableEq

/-! ### Payloads -/

/-- A field of a JSON object, which may be missing, null, or present. -/
inductive Field (α : Type)
  | missing
  | null
  | value (a : α)
deriving DecidableEq

/-- `object.get(field, default)`. -/
def Field.get {α : Type} (default : α) : Field α → Option α
  | .missing => some default
  | .null => Option.none
  | .value a => some a

/-- `object.get(field)`. -/
def Field.toOption {α : Type} : Field α → Option α
  | .value a => some a
  | _ => Option.none

structure PublicationPolicy where
  kind : PublicationKind := .none
  branch : Field String := .missing
  remote : Field String := .missing
  remoteUrl : Option String := Option.none
  ref : Field String := .missing
  expectedBase : Option CommitId := Option.none
  commitMessage : Option String := Option.none
deriving DecidableEq

inductive AuthorityExpectation
  | file
  | absent
deriving DecidableEq

structure AuthorityFile where
  path : Path
  expected : AuthorityExpectation
  sha256 : Option Hash
deriving DecidableEq

structure Check where
  id : String
  authorityFiles : List AuthorityFile
deriving DecidableEq

/-- A task as the plan admitted it. -/
structure TaskPayload where
  id : TaskId
  projectId : Option ProjectId
  writerKey : WriterKey
  workspace : Path
  allowedPaths : List String
  protectedPaths : List (Path × Hash)
  checks : List Check
  requiredReview : Bool
  review : Option ReviewConfig
  ownerAcceptance : Bool
  publication : PublicationPolicy
  maxAttempts : ℕ
  dependencies : List TaskId
deriving DecidableEq

/-! ### Manifests and receipts -/

structure FileRecord where
  deleted : Bool
  sha256 : Option Hash
  bytes : ℕ
  mode : Option ℕ
deriving DecidableEq

structure ProtectedRecord where
  expected : Hash
  actual : Option Hash
  matching : Bool
deriving DecidableEq

structure EvidenceRecord where
  file : String
  sha256 : Hash
  bytes : ℕ
deriving DecidableEq

structure VerificationEvidence where
  scope : EvidenceRecord
  checkAuthority : EvidenceRecord
  checks : List (String × EvidenceRecord)
deriving DecidableEq

/-- A snapshot manifest. Its objects are lists in the order of their sorted keys, which is the
order of the canonical JSON it is stored and hashed as. -/
structure Manifest where
  workspace : Path
  files : List (Path × FileRecord)
  protectedFiles : List (Path × ProtectedRecord)
  gitHead : Option CommitId
  createdAt : Time
  verificationEvidence : Option VerificationEvidence := none
deriving DecidableEq

def Manifest.changed (manifest : Manifest) : List Path := sorted (manifest.files.map Prod.fst)

structure Receipt where
  runId : RunId
  taskId : TaskId
  changedPaths : List Path
deriving DecidableEq

structure Finding where
  severity : String
  path : String
  evidence : String
  impact : String
deriving DecidableEq

structure ReviewReport where
  runId : RunId
  snapshotId : SnapshotId
  verdict : Verdict
  findings : List Finding
deriving DecidableEq

structure CheckResult where
  id : String
  exitCode : Option ℤ
  timedOut : Bool
deriving DecidableEq

inductive Feedback
  | verificationSafetyBlock (error : String)
  | verificationFailure (checks : List CheckResult) (snapshotId : SnapshotId)
  | review (verdict : Verdict) (findings : List Finding) (snapshotId : Option SnapshotId)
deriving DecidableEq

/-! ### Rows -/

structure Task where
  planRevision : String
  ordinal : ℕ
  queueSeq : ℕ
  status : TaskStatus
  payload : TaskPayload
deriving DecidableEq

structure Run where
  taskId : TaskId
  attempt : ℕ
  workerId : String
  state : RunState
  leaseToken : String
  startedAt : Time
  claimGitHead : Option CommitId
  snapshotId : Option SnapshotId := none
  receipt : Option Receipt := none
  verifyStatus : Option VerifyStatus := none
  reviewStatus : Option Verdict := none
  feedback : Option Feedback := none
  error : Option String := none
deriving DecidableEq

structure Snapshot where
  runId : RunId
  manifest : Manifest
deriving DecidableEq

structure Approval where
  snapshotId : SnapshotId
  note : String
deriving DecidableEq

structure Publication where
  operationId : String
  kind : PublicationKind
  status : PublicationStatus
  expectedBase : Option CommitId
  stagedPaths : Option (List Path) := none
  commitId : Option CommitId := none
  remoteCommit : Option CommitId := none
  error : Option String := none
deriving DecidableEq

/-- What a readmission was admitted on. -/
structure ReadmissionProof where
  newTaskId : TaskId
  planRevision : String
  planDigest : Hash
  newPayloadSha256 : Hash
  previousTaskId : TaskId
  previousRunId : RunId
  previousSnapshotId : SnapshotId
  dependencyRunId : RunId
  dependencyCommit : CommitId
  remainingAttempts : ℕ
  admittedMaxAttempts : ℕ
deriving DecidableEq

/-- What an event records, besides the task and the run it is about. -/
inductive EventKind
  | planLoaded (revision digest : String) (queuedCount : ℕ)
  | runClaimed (attempt : ℕ) (workerId : String) (projectId : Option ProjectId)
      (writerKey : WriterKey) (queueSeq : ℕ) (claimGitHead : Option CommitId)
      (claimBranch : Option String) (repair : Option (RunId × SnapshotId))
  | taskBlockedMaxAttempts (attempts : ℕ)
  | taskBlockedAtClaim (reason : String) (projectId : Option ProjectId)
  | taskBlockedContext (reason : String) (projectId : Option ProjectId)
  | runCapabilityCreateFailed (reason : String)
  | workerCheckpointRecorded (reason : String)
  | resultSubmitted (changedPaths : List Path) (receiptSha256 : Hash) (receiptBytes : ℕ)
  | cooperativeQuiescenceConfirmed
  | verifySafetyBlock (reason : String)
  | verifyFail (snapshotId : SnapshotId) (checks : List CheckResult)
  | verifyPass (snapshotId : SnapshotId) (decision : ReviewDecision)
  | reviewImported (verdict : Verdict) (snapshotId : Option SnapshotId) (reportSha256 : Hash)
      (reportBytes : ℕ)
  | runComplete
  | ownerApproved (snapshotId : SnapshotId)
  | published (commit : CommitId) (kind : PublicationKind) (remoteCommit : Option CommitId)
  | runAborted (reason : String) (retry checkpointPresent inactivityAsserted : Bool)
  | taskCancelled (reason : String)
  | taskReadmitted (proof : ReadmissionProof)
  | paused (reason : String)
  | resumed
  | projectPaused (projectId : ProjectId) (reason : String)
  | projectResumed (projectId : ProjectId)
  | projectDeregistered (projectId : ProjectId) (clearedPause : Bool)
deriving DecidableEq

structure Event where
  kind : EventKind
  taskId : Option TaskId := none
  runId : Option RunId := none
deriving DecidableEq

/-! ### Lifecycle grants -/

structure LifecycleGrantSpec where
  projectId : ProjectId
  writerKey : WriterKey
  taskId : TaskId
  planRevision : String
  payloadSha256 : Hash
  attempt : ℕ
  workerId : String
deriving DecidableEq

inductive GrantStatus
  | issued
  | revoked
  | reserved
  | consumed
deriving DecidableEq

structure Grant where
  spec : LifecycleGrantSpec
  status : GrantStatus := .issued
  claimId : Option String := none
  checkpointIds : List Hash := []
deriving DecidableEq

inductive OperationKind
  | claim
  | checkpoint
deriving DecidableEq

inductive OperationPhase
  | prepared
  | pending
  | ready
  | refused
  | done
deriving DecidableEq

/-- The record of an operation of a grant. -/
structure LifecycleOperation where
  kind : OperationKind
  fingerprint : Hash
  phase : OperationPhase
  runId : Option RunId := none
  attempt : Option ℕ := none
  code : String := "lifecycle_unknown"
deriving DecidableEq

/-- The ledger. Events are kept newest first. -/
structure Ledger where
  plans : Table String Hash
  tasks : Table TaskId Task
  runs : Table RunId Run
  events : List Event
  snapshots : Table SnapshotId Snapshot
  approvals : Table RunId Approval
  publications : Table RunId Publication
  paused : Option String
  projectPauses : Table ProjectId String
  runCheckpoints : Table RunId String
  grants : Table String Grant
  operations : Table (String × String) LifecycleOperation

/-! ### Replies -/

/-- A context pack, with the payload in place of the fields copied from it. -/
structure ContextPack where
  runId : RunId
  taskId : TaskId
  attempt : ℕ
  planRevision : String
  queueSeq : ℕ
  claimGitHead : Option CommitId
  payload : TaskPayload
  feedback : Option Feedback
  previousRunId : Option RunId
  previousSnapshotId : Option SnapshotId
  readmission : Option ReadmissionProof
deriving DecidableEq

inductive ReplyStatus
  | ok
  | paused
  | projectPaused
  | projectsPaused
  | busy
  | noWork
  | claimed
  | checkpointed
  | resultSubmitted
  | verifying
  | needsFix
  | reviewing
  | verified
  | blocked
  | pass
  | waitingOwner
  | publicationRequired
  | approved
  | complete
  | aborted
  | cancelled
  | readmitted
  | resumed
  | projectResumed
  | recorded
  | noPublication
  | safeToRetry
  | stagedPendingCommit
  | preparedPendingRefUpdate
  | commitProvenRemotePending
  | unknown
  | refused
deriving DecidableEq

structure Reply where
  status : ReplyStatus
  runId : Option RunId := none
  taskId : Option TaskId := none
  projectId : Option ProjectId := none
  reason : Option String := none
  lease : Option String := none
  commit : Option CommitId := none
  remoteCommit : Option CommitId := none
  attempt : Option ℕ := none
  context : Option ContextPack := none
deriving DecidableEq

namespace Ledger

def empty : Ledger where
  plans := ∅
  tasks := ∅
  runs := ∅
  events := []
  snapshots := ∅
  approvals := ∅
  publications := ∅
  paused := none
  projectPauses := ∅
  runCheckpoints := ∅
  grants := ∅
  operations := ∅

def record (L : Ledger) (kind : EventKind) (taskId : Option TaskId := none)
    (runId : Option RunId := none) : Ledger :=
  { L with events := ⟨kind, taskId, runId⟩ :: L.events }

/-- `UPDATE tasks SET status=? WHERE task_id=?`. -/
def setStatus (L : Ledger) (taskId : TaskId) (status : TaskStatus) : Ledger :=
  { L with tasks := L.tasks.modify taskId fun task => { task with status := status } }

/-- `UPDATE runs SET ... WHERE run_id=?`. -/
def updateRun (L : Ledger) (runId : RunId) (f : Run → Run) : Ledger :=
  { L with runs := L.runs.modify runId f }

section Frame

variable (L : Ledger) (kind : EventKind) (t : Option TaskId) (r : Option RunId) (taskId : TaskId)
  (status : TaskStatus) (runId : RunId) (f : Run → Run)

@[simp] theorem record_tasks : (L.record kind t r).tasks = L.tasks := rfl

@[simp] theorem record_runs : (L.record kind t r).runs = L.runs := rfl

@[simp] theorem record_snapshots : (L.record kind t r).snapshots = L.snapshots := rfl

@[simp] theorem record_approvals : (L.record kind t r).approvals = L.approvals := rfl

@[simp] theorem record_publications : (L.record kind t r).publications = L.publications := rfl

@[simp] theorem record_events :
    (L.record kind t r).events = ⟨kind, t, r⟩ :: L.events := rfl

@[simp] theorem setStatus_tasks :
    (L.setStatus taskId status).tasks =
      L.tasks.modify taskId fun task => { task with status := status } := rfl

@[simp] theorem setStatus_runs : (L.setStatus taskId status).runs = L.runs := rfl

@[simp] theorem setStatus_snapshots : (L.setStatus taskId status).snapshots = L.snapshots := rfl

@[simp] theorem setStatus_approvals : (L.setStatus taskId status).approvals = L.approvals := rfl

@[simp] theorem setStatus_publications :
    (L.setStatus taskId status).publications = L.publications := rfl

@[simp] theorem setStatus_events : (L.setStatus taskId status).events = L.events := rfl

@[simp] theorem updateRun_tasks : (L.updateRun runId f).tasks = L.tasks := rfl

@[simp] theorem updateRun_runs : (L.updateRun runId f).runs = L.runs.modify runId f := rfl

@[simp] theorem updateRun_snapshots : (L.updateRun runId f).snapshots = L.snapshots := rfl

@[simp] theorem updateRun_approvals : (L.updateRun runId f).approvals = L.approvals := rfl

@[simp] theorem updateRun_publications : (L.updateRun runId f).publications = L.publications := rfl

@[simp] theorem updateRun_events : (L.updateRun runId f).events = L.events := rfl

end Frame

/-- The rows of `runs` joined with their tasks, in the order they were started. -/
def activeWriterLocks (L : Ledger) : List (RunId × Run × Task) :=
  (L.runs.entries.filterMap fun e =>
      (L.tasks.lookup e.2.taskId).bind fun task =>
        if e.2.state ∈ writerLockRunStates then some (e.1, e.2, task) else none).insertionSort
    fun a b => a.2.1.startedAt ≤ b.2.1.startedAt

/-- `SELECT COUNT(*) FROM runs WHERE task_id=?`. -/
def attempts (L : Ledger) (taskId : TaskId) : ℕ := L.runs.count (·.taskId = taskId)

def dependenciesDone (L : Ledger) (payload : TaskPayload) : Bool :=
  payload.dependencies.all fun dep =>
    (L.tasks.lookup dep).any (·.status = .done)

end Ledger

end OrchKit
