import OrchKit.Ledger.Operations
import OrchKit.Ledger.Plan

/-! # Commands

The commands of the orchestrator as programs over its atomic operations. What a
command reads inside one transaction is that transaction's business; what it reads
before, it carries along, and by the time it writes the ledger may have moved on.
-/

namespace OrchKit

open Program

abbrev Script (α : Type) : Type := Prog orchSig Exn α

namespace Script

variable {α : Type}

def ofChecked : Checked α → Script α
  | .ok a => .ret a
  | .error e => .raise e

def ask (o : Outside) : Script o.Value := .call (.outside o) ofChecked

def transact (t : Txn) : Script Reply := .call (.transaction t) ofChecked

def selectRun (runId : RunId) : Script (Option Run) := .call (.selectRun runId) .ret

def selectTask (taskId : TaskId) : Script (Option Task) := .call (.selectTask taskId) .ret

def selectSnapshot (snapshotId : Option SnapshotId) : Script (Option Snapshot) :=
  match snapshotId with
  | none => .ret none
  | some snapshotId => .call (.selectSnapshot snapshotId) .ret

def selectApproval (runId : RunId) : Script (Option Approval) := .call (.selectApproval runId) .ret

def selectPublication (runId : RunId) : Script (Option Publication) :=
  .call (.selectPublication runId) .ret

/-- Raise `e` unless `p` holds. -/
def require (p : Prop) [Decidable p] (e : Exn) : Script Unit := if p then .ret () else .raise e

def demand (o : Option α) (e : Exn) : Script α :=
  match o with
  | some a => .ret a
  | none => .raise e

/-- `try: ... except ValueError`, with the message that was caught. -/
def attempt (p : Script α) : Script (Except String α) :=
  (p >>= fun a => .ret (.ok a)).catching fun
    | .value message => .ret (.error message)
    | e => .raise e

end Script

open Script

/-! ### Queue and claim -/

def loadPlan : Script Reply := do
  let plan : String × Hash × List TaskPayload ← ask .readPlan
  let _ ← ofChecked (validatePlan plan.2.2)
  transact (.loadPlan plan.1 plan.2.1 plan.2.2)

def readmit (previousRunId dependencyRunId : RunId) : Script Reply := do
  let plan : String × Hash × List TaskPayload ← ask .readPlan
  match plan.2.2 with
  | [task] => transact <| Txn.readmit previousRunId dependencyRunId plan.1 plan.2.1 task
  | _ => .raise (.value "readmission_single_task_plan_required")

/-- `pause`: the setting and its event are two statements. -/
def pause (reason : String) : Script Reply :=
  .call (.setPaused (some (truncate 500 reason))) fun _ =>
    .call (.insertEvent (.paused (truncate 500 reason))) fun _ => .ret { status := .paused }

def resume : Script Reply :=
  .call (.setPaused none) fun _ =>
    .call (.insertEvent .resumed) fun _ => .ret { status := .resumed }

/-- What `claim` does with a run once its transaction is committed. -/
def publishCapability (reply : Reply) (runId : RunId) (taskId : TaskId) (lease : String) :
    Script Reply := do
  match ← (ask (.writeCapability runId lease) >>= fun _ => .ret none).catching
      fun e => .ret (some e) with
  | none => return { reply with lease := none }
  | some e =>
    let failure := match e with
      | .value message => "capability_create_failed:ValueError:" ++ truncate 500 message
      | .other kind message =>
        "capability_create_failed:" ++ kind ++ ":" ++ truncate 500 message
    transact (.capabilityCreateFailed runId taskId failure)

def claim (workerId : String) (projectId : Option ProjectId) (repairFromRunId : Option RunId) :
    Script Reply := do
  let reply ← transact (.claim workerId projectId repairFromRunId)
  match reply.status, reply.runId, reply.taskId, reply.lease with
  | .claimed, some runId, some taskId, some lease => publishCapability reply runId taskId lease
  | _, _, _, _ => return reply

/-! ### The run -/

def submit (runId : RunId) (leaseToken : String) : Script Reply := do
  let loaded : Receipt × Hash × ℕ ← ask (.loadWorkerReceipt runId)
  transact (.submit runId leaseToken loaded.1 loaded.2.1 loaded.2.2)

def quiesce (runId : RunId) (leaseToken : String) : Script Reply := do
  let reply ← transact (.quiesce runId leaseToken)
  let _ ← ask (.revokeCapability runId)
  return reply

def blockVerification (runId : RunId) (reason : String) : Script Reply := do
  let reply ← transact (.blockVerification runId reason)
  let _ ← ask (.revokeCapability runId)
  return reply

/-- The reasons for which a snapshot that cannot be taken blocks the run. -/
def isSafetyReason (reason : String) : Bool :=
  ["protected_path_changed:", "path_escape", "symlink_not_allowed", "missing_path",
    "not_regular_file:"].any fun p => p.toList.isPrefixOf reason.toList

/-- Why the scope evidence of `verify` blocks the run, if it does. -/
def scopeRefusal (run : Run) (payload : TaskPayload) (scope : ScopeEvidence) : Option String :=
  if scope.status = .blocked then
    match scope.outsideAllowlist with
    | path :: _ => some ("workspace_scope_violation:" ++ path)
    | [] => some "receipt_scope_mismatch"
  else if payload.publication.kind = .none then
    none
  else
    match scope.gitHead, run.claimGitHead.or payload.publication.expectedBase with
    | none, _ => some "workspace_git_unavailable"
    | some observed, some expected =>
      if observed = expected then none else some "workspace_base_changed"
    | some _, none => none

def runChecks (payload : TaskPayload) (runId : RunId) : List Check → Script (List CheckResult)
  | [] => .ret []
  | check :: checks => do
    let result : CheckResult ← ask (.runCheck payload runId check)
    let results ← runChecks payload runId checks
    return result :: results

/-- The last part of `verify`, after the snapshot was taken. -/
def verifySnapshot (runId : RunId) (run : Run) (payload : TaskPayload) (manifest : Manifest) :
    Script Reply := do
  let checks ← runChecks payload runId payload.checks
  let postAuthority : Refusal ← ask (.checkAuthorityEvidence payload)
  match postAuthority with
  | some reason => blockVerification runId ("check_mutated_authority:" ++ reason)
  | none =>
    let evidence : Script VerificationEvidence := do
      let _ ← ask (.assertManifestCurrent payload manifest)
      ask (.verificationEvidenceManifest runId checks)
    match ← attempt evidence with
    | .error reason => blockVerification runId reason
    | .ok evidence =>
      transact (.verifyResult runId run payload
        { manifest with verificationEvidence := some evidence } checks)

/-- `verify` on the run it has read. -/
def verifyRun (runId : RunId) (run : Run) : Script Reply := do
  let task ← demand (← selectTask run.taskId) missingRow
  let receipt ← demand run.receipt
    (.other "TypeError" "the JSON object must be str, bytes or bytearray, not NoneType")
  let payload := task.payload
  let scope : ScopeEvidence ← ask (.workspaceScopeEvidence payload receipt.changedPaths)
  match scopeRefusal run payload scope with
  | some reason => blockVerification runId reason
  | none =>
    let authority : Refusal ← ask (.checkAuthorityEvidence payload)
    match authority with
    | some reason => blockVerification runId reason
    | none =>
      match ← attempt (ask (.snapshot payload receipt.changedPaths scope.gitHead)) with
      | .ok manifest => verifySnapshot runId run payload manifest
      | .error reason =>
        if isSafetyReason reason then
          blockVerification runId reason
        else
          .raise (.value reason)

def verify (runId : RunId) : Script Reply := do
  let run ← demand (← selectRun runId) (.value "run_not_verifying")
  require (run.state = .verifying) (.value "run_not_verifying")
  verifyRun runId run

def importReview (runId : RunId) : Script Reply := do
  let loaded : ReviewReport × Hash × ℕ ← ask (.loadReviewReport runId)
  transact (.importReview runId loaded.1 loaded.2.1 loaded.2.2)

def abort (runId : RunId) (reason : String) (retry processInactivityConfirmed : Bool) :
    Script Reply := do
  let reply ← transact (.abort runId reason retry processInactivityConfirmed)
  let _ ← ask (.revokeCapability runId)
  return reply

end OrchKit
