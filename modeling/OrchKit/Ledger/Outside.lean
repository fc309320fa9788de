import OrchKit.Data.Checked
import OrchKit.Ledger.State

/-! # What the ledger's commands ask of the outside

Clocks, random tokens, files, the workspace, Git and its transports. A command
issues these operations one at a time; inside a transaction, where only reads
occur, the answers come from the host as it is at each moment.
-/

namespace OrchKit

/-- What code raises: a `ValueError`, or something of another class, of which the name is kept. -/
inductive Exn
  | value (message : String)
  | other (kind message : String)
deriving DecidableEq

def missingRow : Exn := .other "TypeError" "'NoneType' object is not subscriptable"

abbrev Checked := Except Exn

inductive ScopeStatus
  | pass
  | blocked
  | nonGitUnavailable
deriving DecidableEq

structure ScopeEvidence where
  status : ScopeStatus
  declaredPaths : List Path
  gitHead : Option CommitId
  observedPaths : List Path
  protectedPreexistingPaths : List Path
  outsideAllowlist : List Path
  omittedFromReceipt : List Path
  declaredButUnobserved : List Path
deriving DecidableEq

/-- The outcome of a guard or of authority evidence; `none` is a pass. -/
abbrev Refusal := Option String

/-- The result of `_claim_workspace_guard`. -/
structure ClaimGuard where
  refusal : Refusal
  scope : Option ScopeEvidence

inductive Outside
  | utcNow
  | uuidHex
  | tokenUrlsafe
  | packSize (pack : ContextPack)
  | claimGitState (payload : TaskPayload) (scope : Option ScopeEvidence)
  | claimWorkspaceGuard (payload : TaskPayload) (claimGitHead : Option CommitId)
  | workspaceScopeEvidence (payload : TaskPayload) (declared : List Path)
  | checkAuthorityEvidence (payload : TaskPayload)
  | snapshot (payload : TaskPayload) (changed : List Path) (gitHead : Option CommitId)
  | runCheck (payload : TaskPayload) (runId : RunId) (check : Check)
  | assertManifestCurrent (payload : TaskPayload) (manifest : Manifest)
  | verificationEvidenceManifest (runId : RunId) (checks : List CheckResult)
  | retainedEvidenceManifest (runId : RunId) (checks : List Check)
  | repairSourceCurrent (payload : TaskPayload) (relative : Path) (expected : Option Hash)
      (recorded : Option FileRecord)
  | itaVisibleStagedPaths (payload : TaskPayload)
  | capabilityPresent (runId : RunId)
  | executionResolved (runId : RunId)
  | processesResolved (runId : RunId)
  | readmissionProjects (old dependency new : TaskPayload)
  | readmissionRetainedEvidence (runId : RunId) (verdict : Verdict)
  | readmissionParents (payload : TaskPayload) (commit : CommitId)
  | readmissionDestination (payload : TaskPayload) (commit : CommitId)
  | readPlan
  | loadWorkerReceipt (runId : RunId)
  | loadReviewReport (runId : RunId)
  | writeCapability (runId : RunId) (lease : String)
  | revokeCapability (runId : RunId)
  | leaseFromCapability (runId : RunId)
  | openSession (runId : RunId) (attempt : ℕ)
  | requireSession (runId : RunId) (attempt : ℕ)
  | closeSession (runId : RunId) (attempt : ℕ)
  | assertPathsUnfiltered (payload : TaskPayload) (paths : List Path)
  | branchShowCurrent (payload : TaskPayload)
  | revParseHead (payload : TaskPayload)
  | stagedPaths (payload : TaskPayload)
  | gitAdd (payload : TaskPayload) (paths : List Path)
  | stagedMatchesSnapshot (payload : TaskPayload) (manifest : Manifest)
  | writeTree (payload : TaskPayload)
  | commitTree (payload : TaskPayload) (tree : Hash) (parent : CommitId) (message : String)
  | commitMatchesSnapshot (payload : TaskPayload) (commit : CommitId) (expectedBase : CommitId)
      (manifest : Manifest)
  | symbolicRef (payload : TaskPayload)
  | updateRef (payload : TaskPayload) (ref : String) (new old : CommitId)
  | inspectTransportUrl (payload : TaskPayload) (remoteUrl : String)
  | push (payload : TaskPayload) (remoteUrl : String) (commit : CommitId) (ref : String)
  | lsRemote (payload : TaskPayload) (remoteUrl : String) (ref : String)

namespace Outside

/-- What an operation returns: a command that may fail returns an option, `none` standing for a
non-zero exit code. -/
abbrev Value : Outside → Type
  | utcNow => Time
  | uuidHex => String
  | tokenUrlsafe => String
  | packSize _ => ℕ
  | claimGitState .. => Option CommitId × Option String
  | claimWorkspaceGuard .. => ClaimGuard
  | workspaceScopeEvidence .. => ScopeEvidence
  | checkAuthorityEvidence .. => Refusal
  | snapshot .. => Manifest
  | runCheck .. => CheckResult
  | assertManifestCurrent .. => Unit
  | verificationEvidenceManifest .. => VerificationEvidence
  | retainedEvidenceManifest .. => VerificationEvidence
  | repairSourceCurrent .. => Unit
  | itaVisibleStagedPaths .. => Option (List Path)
  | capabilityPresent .. => Bool
  | executionResolved .. => Unit
  | processesResolved .. => Unit
  | readmissionProjects .. => Unit
  | readmissionRetainedEvidence .. => Unit
  | readmissionParents .. => List CommitId
  | readmissionDestination .. => Unit
  | readPlan => String × Hash × List TaskPayload
  | loadWorkerReceipt .. => Receipt × Hash × ℕ
  | loadReviewReport .. => ReviewReport × Hash × ℕ
  | writeCapability .. => Unit
  | revokeCapability .. => Unit
  | leaseFromCapability .. => String
  | openSession .. => Unit
  | requireSession .. => Unit
  | closeSession .. => Unit
  | assertPathsUnfiltered .. => Unit
  | branchShowCurrent .. => Option String
  | revParseHead .. => Option CommitId
  | stagedPaths .. => Option (List Path)
  | gitAdd .. => Option Unit
  | stagedMatchesSnapshot .. => Bool
  | writeTree .. => Option Hash
  | commitTree .. => Option CommitId
  | commitMatchesSnapshot .. => Bool
  | symbolicRef .. => Option String
  | updateRef .. => Bool
  | inspectTransportUrl .. => Except String String
  | push .. => Option Unit
  | lsRemote .. => Option CommitId

end Outside

abbrev View := (o : Outside) → Checked o.Value

/-- The host around the ledger, at each of the moments a transaction looks at it. -/
abbrev Host := ℕ → View

/-- `except ValueError`: what is caught becomes a value, everything else is raised on. -/
def catchValue {α : Type} : Checked α → Checked (Except String α)
  | .ok a => .ok (.ok a)
  | .error (.value message) => .ok (.error message)
  | .error e => .error e

def refuse : Refusal → Checked Unit
  | none => .ok ()
  | some reason => .error (.value reason)

/-- What the fingerprint of a lifecycle operation is the digest of. -/
inductive OperationInput
  | claim
  | checkpoint (reason processState : String)
deriving DecidableEq

/-- The content hashes a ledger stores: of a manifest, a task payload, the input of a lifecycle
operation and the id of one. -/
structure Sha256 where
  snapshotId : Manifest → SnapshotId
  payload : TaskPayload → Hash
  fingerprint : OperationInput → Hash
  operationId : String → Hash

end OrchKit
