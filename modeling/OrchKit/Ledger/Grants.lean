import OrchKit.Ledger.Runs

/-! # Lifecycle grants

A grant authorises one claim of one task at one attempt, and checkpoints of the run
it starts. Its claim reserves the grant durably, consumes it together with the
creation of the run, and records that the run is ready once its capability is out.
A checkpoint is anchored in the grant before it is recorded. Every operation id has
a record of its own, whose phase only ever moves on.
-/

namespace OrchKit

open Except

/-! ### Well-formed records -/

def isHex (c : Char) : Bool := c.isDigit || ('a' ≤ c && c ≤ 'f')

/-- `_GRANT_ID`. -/
def isGrantId (s : String) : Bool := s.length = 32 && s.toList.all isHex

/-- `_ID`. -/
def isOperationId (s : String) : Bool := isIdentifier s && s.length ≤ 128

/-- The run id of a `WorkerRunBinding`. -/
def isRunId (s : String) : Bool := isIdentifier s && s.length ≤ 200

def LifecycleGrantSpec.valid (spec : LifecycleGrantSpec) : Bool :=
  [spec.projectId, spec.writerKey, spec.taskId, spec.planRevision, spec.workerId].all
      (fun value => value ≠ "" && value.utf8ByteSize ≤ 200) &&
    spec.payloadSha256.length = 64 && spec.payloadSha256.toList.all isHex &&
    1 ≤ spec.attempt && spec.attempt ≤ 20 &&
    spec.projectId.length ≤ 160 &&
    spec.projectId.toList.all (fun c => c.isLower || c.isDigit || c ∈ ['.', '_', '-']) &&
    spec.writerKey.toList.all (fun c => c.isAlphanum || c ∈ [':', '.', '_', '-']) &&
    isRunId spec.taskId && isRunId spec.planRevision && isRunId spec.workerId

/-- What `_load` requires of a grant. -/
def Grant.wellFormed (grant : Grant) : Bool :=
  grant.spec.valid && grant.checkpointIds.length ≤ 32 && grant.checkpointIds.Nodup &&
    (grant.checkpointIds = [] || grant.status = .consumed) &&
    if grant.status = .reserved ∨ grant.status = .consumed then grant.claimId.any isOperationId
    else grant.claimId = none

/-- What `_load` requires of the record of an operation. -/
def LifecycleOperation.wellFormed (record : LifecycleOperation) : Bool :=
  (match record.kind with
    | .claim => record.phase ≠ .done
    | .checkpoint => record.phase = .prepared ∨ record.phase = .done) &&
  isOperationId record.code &&
  if record.phase = .refused ∨ (record.kind = .claim ∧ record.phase = .prepared) then
    record.runId = none ∧ record.attempt = none
  else
    record.runId.any (fun id => id ≠ "" && id.length ≤ 200) &&
      record.attempt.any fun n => 1 ≤ n && n ≤ 20

/-- `_result`. -/
def LifecycleOperation.reply (record : LifecycleOperation) : Reply where
  status := match record.phase with
    | .prepared => .unknown
    | .pending => .unknown
    | .ready => .ok
    | .refused => .refused
    | .done => .ok
  runId := record.runId
  reason := record.code
  attempt := record.attempt

def unknownReply : Reply := { status := .unknown, reason := "lifecycle_unknown" }

def refusedReply (code : String) : Reply := { status := .refused, reason := code }

/-- `_matches`: the task is the one the grant was issued for, byte for byte. -/
def LifecycleGrantSpec.matching (spec : LifecycleGrantSpec) (sha : Sha256) (row : Option Task) :
    Bool :=
  row.any fun task =>
    task.payload.projectId = some spec.projectId ∧ task.payload.writerKey = spec.writerKey ∧
      task.planRevision = spec.planRevision ∧ sha.payload task.payload = spec.payloadSha256

/-- What the first transaction of a checkpoint answers: a reply, after which the call is over; the
reply of an operation that is replayed; or what it goes on with. -/
inductive CheckpointStart
  | answered (reply : Reply)
  | replayed (reply : Reply)
  | prepared (grant : Grant) (claim : LifecycleOperation)

namespace Ledger

def grantMatches (L : Ledger) (sha : Sha256) (spec : LifecycleGrantSpec) : Bool :=
  spec.matching sha (L.tasks.lookup spec.taskId)

def taskReady (L : Ledger) (taskId : TaskId) : Bool :=
  (L.tasks.lookup taskId).any (·.status ∈ readyTaskStates)

/-- `_load` of a grant. -/
def loadGrant (L : Ledger) (grantId : String) : Checked (Option Grant) := do
  require (∀ grant, L.grants.lookup grantId = some grant → grant.wellFormed)
    (.value "lifecycle_record_invalid")
  return L.grants.lookup grantId

/-- `_load` of the record of an operation. -/
def loadOperation (L : Ledger) (grantId operationId : String) :
    Checked (Option LifecycleOperation) := do
  require (∀ record, L.operations.lookup (grantId, operationId) = some record →
    isOperationId operationId ∧ record.wellFormed) (.value "lifecycle_record_invalid")
  return L.operations.lookup (grantId, operationId)

def createGrant (L : Ledger) (sha : Sha256) (host : Host) (spec : LifecycleGrantSpec) :
    Checked (Reply × Ledger) := do
  require spec.valid (.value "lifecycle_invalid_spec")
  let grantId : String ← host 0 .tokenUrlsafe
  require (L.grants.entries.length < 4096 ∧ L.grantMatches sha spec ∧ L.taskReady spec.taskId ∧
      L.attempts spec.taskId + 1 = spec.attempt) (.value "lifecycle_grant_denied")
  require (L.grants.lookup grantId = none)
    (.other "IntegrityError" "UNIQUE constraint failed: settings.key")
  return ({ status := .ok, reason := grantId },
    { L with grants := L.grants.put grantId { spec := spec } })

def revokeGrant (L : Ledger) (grantId : String) : Checked (Reply × Ledger) := do
  require (isGrantId grantId) (.value "lifecycle_invalid_grant")
  let grant ← ofOption (← L.loadGrant grantId) (.value "lifecycle_grant_denied")
  require (grant.status = .issued) (.value "lifecycle_grant_denied")
  return ({ status := .ok },
    { L with grants := L.grants.put grantId { grant with status := .revoked } })

/-- `__grant`. -/
def liveGrant (L : Ledger) (grantId : String) : Checked Grant := do
  let grant ← ofOption (← L.loadGrant grantId) (.value "lifecycle_grant_denied")
  require (grant.status ≠ .revoked) (.value "lifecycle_grant_denied")
  return grant

/-! ### The claim of a grant -/

/-- The first transaction of a lifecycle claim; `claimed` is its answer when the claim goes on. -/
def reserveGrant (L : Ledger) (sha : Sha256) (grantId operationId : String) :
    Checked (Reply × Ledger) := do
  let grant ← L.liveGrant grantId
  match ← L.loadOperation grantId operationId with
  | some previous =>
    if previous.kind ≠ .claim ∨ previous.fingerprint ≠ sha.fingerprint .claim then
      return (refusedReply "lifecycle_conflict", L)
    if (grant.status = .reserved ∨ grant.status = .consumed) ∧ grant.claimId = some operationId then
      return (previous.reply, L)
    return (unknownReply, L)
  | none =>
    if grant.status ≠ .issued then
      return (refusedReply "lifecycle_consumed", L)
    return ({ status := .claimed }, { L with
      grants := L.grants.put grantId { grant with status := .reserved, claimId := some operationId }
      operations := L.operations.put (grantId, operationId)
        { kind := .claim, fingerprint := sha.fingerprint .claim, phase := .prepared } })

/-- Why a grant's claim cannot start a run in this ledger. -/
def grantRefusal (L : Ledger) (sha : Sha256) (spec : LifecycleGrantSpec) : Option String :=
  if ¬ L.grantMatches sha spec ∨ ¬ L.taskReady spec.taskId ∨
      L.attempts spec.taskId + 1 ≠ spec.attempt then
    some "lifecycle_stale"
  else if L.paused.isSome ∨ (L.projectPauses.lookup spec.projectId).isSome then
    some "lifecycle_paused"
  else if (L.tasks.lookup spec.taskId).any (fun task => ¬ L.dependenciesDone task.payload ∨
      L.attempts spec.taskId ≥ task.payload.maxAttempts) ∨
      (lockOf L.activeWriterLocks spec.writerKey).isSome then
    some "lifecycle_blocked"
  else
    none

/-- The preflight of a lifecycle claim: the same two looks at the workspace as `claim`. -/
def grantPreflight (L : Ledger) (host : Host) (taskId : TaskId) (task : Task) (runId : RunId)
    (attempt : ℕ) : Checked (Option CommitId × Option String) := do
  let identity ← claimPreflight host task.payload
  let _ ← L.buildContextPack (host 2) taskId task runId attempt identity.1 false
  claimRecheck host task.payload identity.1 identity.2
  return identity

/-- The record of a claim that has started its run. -/
def pendingClaim (sha : Sha256) (runId : RunId) (attempt : ℕ) : LifecycleOperation where
  kind := .claim
  fingerprint := sha.fingerprint .claim
  phase := .pending
  runId := some runId
  attempt := some attempt

/-- The second transaction of a lifecycle claim. -/
def consumeGrant (L : Ledger) (sha : Sha256) (host : Host) (grantId operationId : String) :
    Checked (Reply × Ledger) := do
  let grant ← L.liveGrant grantId
  let existing ← L.loadOperation grantId operationId
  require (grant.status = .reserved ∧ grant.claimId = some operationId ∧ existing =
      some { kind := .claim, fingerprint := sha.fingerprint .claim, phase := .prepared })
    (.value "lifecycle_record_changed")
  let spec := grant.spec
  let consumed (L : Ledger) (record : LifecycleOperation) : Ledger := { L with
    grants := L.grants.put grantId { grant with status := .consumed }
    operations := L.operations.put (grantId, operationId) record }
  let refused (code : String) : Reply × Ledger :=
    let record : LifecycleOperation :=
      { kind := .claim, fingerprint := sha.fingerprint .claim, phase := .refused, code := code }
    (record.reply, consumed L record)
  match L.grantRefusal sha spec, L.tasks.lookup spec.taskId with
  | some code, _ => return refused code
  | none, none => return refused "lifecycle_stale"
  | none, some task =>
    let uuid : String ← host 2 .uuidHex
    let runId := newRunId spec.taskId spec.attempt uuid
    match ← catchValue (L.grantPreflight host spec.taskId task runId spec.attempt) with
    | .error _ => return refused "lifecycle_preflight_denied"
    | .ok (claimGitHead, claimBranch) =>
      let lease : String ← host 5 .tokenUrlsafe
      let now : Time ← host 0 .utcNow
      let run : Run := ⟨spec.taskId, spec.attempt, spec.workerId, .running, lease, now,
        claimGitHead, none, none, none, none, none, none⟩
      let L ← L.startRun runId run task claimBranch none
      return ({ status := .claimed, runId := runId, taskId := spec.taskId, lease := lease,
                attempt := some spec.attempt },
        consumed L (pendingClaim sha runId spec.attempt))

/-- `SELECT MAX(attempt) FROM runs WHERE task_id=?`. -/
def latestAttempt (L : Ledger) (taskId : TaskId) : Option ℕ :=
  ((L.runs.rows.filter (·.taskId = taskId)).map Run.attempt).max?

/-- `__validate_native`: the run the grant is bound to is live, and the only one under its key. -/
def validateNative (L : Ledger) (sha : Sha256) (view : View) (spec : LifecycleGrantSpec)
    (runId : RunId) (attempt : ℕ) : Checked Unit := do
  let lease : String ← view (.leaseFromCapability runId)
  let run ← ofOption (L.runs.lookup runId) (.value "lifecycle_binding_denied")
  require (attempt = spec.attempt ∧ L.grantMatches sha spec ∧
      (L.tasks.lookup spec.taskId).any (·.status = .inProgress) ∧ run.state = .running ∧
      run.taskId = spec.taskId ∧ run.workerId = spec.workerId ∧ run.attempt = spec.attempt ∧
      L.latestAttempt spec.taskId = some spec.attempt ∧ run.leaseToken = lease ∧
      (L.activeWriterLocks.filter fun e => e.2.2.payload.writerKey = spec.writerKey).map (·.1) =
        [runId]) (.value "lifecycle_binding_denied")

/-- The last transaction of a lifecycle claim, on the run it has created. -/
def readyGrant (L : Ledger) (sha : Sha256) (host : Host) (grantId operationId : String)
    (runId : RunId) (attempt : ℕ) : Checked (Reply × Ledger) := do
  let grant ← L.liveGrant grantId
  let current ← L.loadOperation grantId operationId
  L.validateNative sha (host 0) grant.spec runId attempt
  require (grant.status = .consumed ∧ grant.claimId = some operationId ∧
      grant.checkpointIds = [] ∧ current = some (pendingClaim sha runId attempt))
    (.value "lifecycle_record_changed")
  let record : LifecycleOperation :=
    { pendingClaim sha runId attempt with phase := .ready, code := "lifecycle_claimed" }
  return (record.reply, { L with operations := L.operations.put (grantId, operationId) record })

/-! ### Checkpoints of a grant -/

/-- The record of a claim that a checkpoint of a bound route needs. -/
def boundClaim (L : Ledger) (grantId : String) (grant : Grant) (runId : RunId) :
    Checked LifecycleOperation := do
  let claimId ← ofOption grant.claimId (.value "lifecycle_binding_denied")
  let claim ← ofOption (← L.loadOperation grantId claimId) (.value "lifecycle_binding_denied")
  require (claim.phase = .ready ∧ claim.runId = some runId) (.value "lifecycle_binding_denied")
  return claim

/-- The record of a checkpoint that was prepared and not recorded yet. -/
def preparedCheckpoint (sha : Sha256) (reason processState : String) (runId : RunId)
    (attempt : ℕ) : LifecycleOperation where
  kind := .checkpoint
  fingerprint := sha.fingerprint (.checkpoint reason processState)
  phase := .prepared
  runId := some runId
  attempt := some attempt

/-- The first transaction of a checkpoint, of a route bound to a run. -/
def prepareCheckpoint (L : Ledger) (sha : Sha256) (host : Host)
    (grantId operationId reason processState : String) (runId : RunId) (attempt : ℕ) :
    Checked (CheckpointStart × Ledger) := do
  let grant ← L.liveGrant grantId
  let claim ← L.boundClaim grantId grant runId
  L.validateNative sha (host 0) grant.spec runId attempt
  let identity := sha.operationId operationId
  match ← L.loadOperation grantId operationId with
  | some previous =>
    if previous.kind ≠ .checkpoint then
      return (.answered (refusedReply "lifecycle_conflict"), L)
    if identity ∉ grant.checkpointIds then
      return (.answered unknownReply, L)
    if previous.fingerprint ≠ sha.fingerprint (.checkpoint reason processState) then
      return (.answered (refusedReply "lifecycle_conflict"), L)
    if previous.runId ≠ some runId ∨ previous.attempt ≠ some attempt then
      return (.answered unknownReply, L)
    return (.replayed previous.reply, L)
  | none =>
    if identity ∈ grant.checkpointIds then
      return (.answered unknownReply, L)
    if grant.checkpointIds.length ≥ 32 then
      return (.answered (refusedReply "lifecycle_capacity"), L)
    let grant := { grant with checkpointIds := grant.checkpointIds ++ [identity] }
    return (.prepared grant claim, { L with
      grants := L.grants.put grantId grant
      operations := L.operations.put (grantId, operationId)
        (preparedCheckpoint sha reason processState runId grant.spec.attempt) })

/-- The second transaction of a checkpoint, on the grant and the claim the first has left. -/
def recordCheckpoint (L : Ledger) (sha : Sha256) (host : Host)
    (grantId operationId reason processState : String) (runId : RunId) (attempt : ℕ)
    (grant : Grant) (claim : LifecycleOperation) : Checked (Reply × Ledger) := do
  let currentGrant ← L.liveGrant grantId
  let current ← L.loadOperation grantId operationId
  let claimId ← ofOption currentGrant.claimId (.value "lifecycle_record_changed")
  let currentClaim ← L.loadOperation grantId claimId
  require (currentGrant.spec = grant.spec ∧ currentGrant.status = grant.status ∧
      currentGrant.claimId = grant.claimId ∧ grant.checkpointIds ⊆ currentGrant.checkpointIds ∧
      current = some (preparedCheckpoint sha reason processState runId grant.spec.attempt) ∧
      currentClaim = some claim) (.value "lifecycle_record_changed")
  L.validateNative sha (host 0) grant.spec runId attempt
  let record : LifecycleOperation :=
    { preparedCheckpoint sha reason processState runId grant.spec.attempt with
      phase := .done
      code := "lifecycle_checkpointed" }
  return (record.reply, { L with
    runCheckpoints := L.runCheckpoints.put runId reason
    operations := L.operations.put (grantId, operationId) record }.record
      (.workerCheckpointRecorded reason) grant.spec.taskId runId)

end Ledger

end OrchKit
