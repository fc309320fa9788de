import OrchKit.Ledger.Routes

/-! # Publication

`publish` and `reconcile_publication`, stage by stage. The journal is the row of
`publications`; every stage is recorded before or after its Git effect, and what a
call knows of the row is passed along as `seen`.
-/

namespace OrchKit

open Program Script

/-- What a first write of the journal needs besides its status. -/
structure PublicationIntent where
  operationId : String
  kind : PublicationKind
  expectedBase : CommitId

/-- `_publication_update`; the result is the row as this call leaves it. -/
def publicationUpdate (runId : RunId) (seen : Option Publication) (patch : PublicationPatch)
    (intent : Option PublicationIntent := none) : Script (Option Publication) := do
  match ← selectPublication runId with
  | some row =>
    .call (.updatePublication runId patch seen) fun _ => .ret (some (patch.apply row))
  | none =>
    let intent ← demand intent (.value "publication_intent_metadata_required")
    let row : Publication := ⟨intent.operationId, intent.kind, patch.status,
      some intent.expectedBase, patch.stagedPaths, patch.commitId, patch.remoteCommit, patch.error⟩
    .call (.insertPublication runId row seen) fun answer => do
      ofChecked answer
      return some row

def publicationScopeRefusal (evidence : ScopeEvidence) (expectedBase : CommitId) :
    Option String :=
  match evidence.status with
  | .nonGitUnavailable => some "git_unavailable"
  | .blocked =>
    match evidence.outsideAllowlist, evidence.omittedFromReceipt,
        evidence.declaredButUnobserved with
    | path :: _, _, _ => some ("outside_allowlist:" ++ path)
    | [], path :: _, _ => some ("unexpected_path:" ++ path)
    | [], [], path :: _ => some ("snapshot_path_not_observed:" ++ path)
    | [], [], [] => some "scope_mismatch"
  | .pass =>
    if evidence.gitHead = some expectedBase then none
    else some ("base_changed:" ++ evidence.gitHead.getD "unknown")

def publicationWorkspaceGuard (payload : TaskPayload) (manifest : Manifest)
    (expectedBase : CommitId) : Script Unit := do
  match ← attempt (ask (.assertManifestCurrent payload manifest)) with
  | .error message => .raise (.value ("publication_workspace_snapshot_changed:" ++ message))
  | .ok _ =>
    let evidence : ScopeEvidence ← ask (.workspaceScopeEvidence payload manifest.changed)
    match publicationScopeRefusal evidence expectedBase with
    | some reason => .raise (.value ("publication_workspace_scope_changed:" ++ reason))
    | none => return ()

def prepareSnapshotCommit (payload : TaskPayload) (expectedBase : CommitId) (manifest : Manifest)
    (message : String) : Script CommitId := do
  let tree : Option Hash ← ask (.writeTree payload)
  let tree ← demand tree (.other "RuntimeError" "git_write_tree_failed:")
  let commit : Option CommitId ← ask (.commitTree payload tree expectedBase message)
  let commit ← demand commit (.other "RuntimeError" "git_commit_tree_failed:")
  let proven : Bool ← ask (.commitMatchesSnapshot payload commit expectedBase manifest)
  require proven (.value "prepared_snapshot_mismatch")
  return commit

def casUpdateBranch (payload : TaskPayload) (branch : String) (commitId expectedBase : CommitId) :
    Script Unit := do
  let ref := "refs/heads/" ++ branch
  let symbolic : Option String ← ask (.symbolicRef payload)
  require (symbolic = some ref) (.value "publication_branch_ref_mismatch")
  let updated : Bool ← ask (.updateRef payload ref commitId expectedBase)
  if ¬ updated then
    let head : Option CommitId ← ask (.revParseHead payload)
    .raise (.value ("publication_base_changed_during_commit:" ++ head.getD "unknown"))

/-- The URL a transport command is run with, once its policy is `READY`. -/
def transportUrl (payload : TaskPayload) (remoteUrl : String) : Script String := do
  let policy : Except String String ← ask (.inspectTransportUrl payload remoteUrl)
  match policy with
  | .ok canonicalUrl => return canonicalUrl
  | .error reason => .raise (.value ("git_transport_blocked:" ++ reason))

def transportPush (payload : TaskPayload) (remoteUrl : String) (commit : CommitId)
    (ref : String) : Script (Option Unit) := do
  let url ← transportUrl payload remoteUrl
  ask (.push payload url commit ref)

def transportLsRemote (payload : TaskPayload) (remoteUrl : String) (ref : String) :
    Script (Option CommitId) := do
  let url ← transportUrl payload remoteUrl
  ask (.lsRemote payload url ref)

/-- The ref of a policy as it is formatted into `refs/heads/{ref}`. -/
def PublicationPolicy.refName (policy : PublicationPolicy) : String :=
  (policy.ref.get "main").getD "None"

def PublicationPolicy.message (policy : PublicationPolicy) (taskId : TaskId) : String :=
  (policy.commitMessage.filter (· ≠ "")).getD ("orch: complete " ++ taskId)

def PublicationPolicy.url (policy : PublicationPolicy) : Option String :=
  policy.remoteUrl.filter (· ≠ "")

/-! ### publish -/

/-- What the preflight of `publish` has established. -/
structure Publishing where
  runId : RunId
  taskId : TaskId
  payload : TaskPayload
  manifest : Manifest
  branch : String
  expectedBase : CommitId

/-- The state of `publish` when something is raised after its intent: the stage it is in, and
the journal row as it knows it. -/
structure Interrupted where
  phase : PublicationStatus
  seen : Option Publication
  cause : Exn

/-- Run a part of `publish` in a phase. -/
def inPhase {α : Type} (phase : PublicationStatus) (seen : Option Publication) (p : Script α) :
    Prog orchSig Interrupted α := p.catching fun e => .raise ⟨phase, seen, e⟩

/-- The part of `publish` that deals with the remote. -/
def publishRemote (c : Publishing) (commitId : CommitId) (seen : Option Publication) :
    Prog orchSig Interrupted Reply := do
  let pub := c.payload.publication
  if pub.kind ≠ .git then
    inPhase .committed seen
      (transact (.finalizePublication c.runId c.taskId commitId none pub.kind seen))
  else
    let pushed ← inPhase .committed seen do
      let remoteUrl ← demand pub.url (.value "publication_remote_url_missing")
      let pushed ← transportPush c.payload remoteUrl commitId pub.refName
      demand (pushed.map fun _ => remoteUrl) (.other "RuntimeError" "git_push_failed:")
    let seen ← inPhase .pushed seen
      (publicationUpdate c.runId seen { status := .pushed, commitId := commitId })
    let remoteCommit ← inPhase .pushed seen do
      let remoteCommit ← transportLsRemote c.payload pushed pub.refName
      require (remoteCommit = some commitId) (.value "remote_verification_failed")
      return remoteCommit
    let seen ← inPhase .remoteVerified seen (publicationUpdate c.runId seen
      { status := .remoteVerified, commitId := commitId, remoteCommit := remoteCommit })
    inPhase .remoteVerified seen
      (transact (.finalizePublication c.runId c.taskId commitId remoteCommit pub.kind seen))

/-- The part of `publish` after its intent is recorded. -/
def publishStages (c : Publishing) (seen : Option Publication) :
    Prog orchSig Interrupted Reply := do
  let changed := c.manifest.changed
  inPhase .intent seen do
    let added : Option Unit ← ask (.gitAdd c.payload changed)
    let _ ← demand added (.other "RuntimeError" "git_add_failed:")
    let staged : Bool ← ask (.stagedMatchesSnapshot c.payload c.manifest)
    require staged (.value "staged_snapshot_mismatch;staging_requires_reconciliation")
  let seen ← inPhase .staged seen
    (publicationUpdate c.runId seen { status := .staged, stagedPaths := some changed })
  let commitId ← inPhase .staged seen (prepareSnapshotCommit c.payload c.expectedBase c.manifest
    (c.payload.publication.message c.taskId))
  let seen ← inPhase .prepared seen
    (publicationUpdate c.runId seen { status := .prepared, commitId := commitId })
  inPhase .prepared seen do
    publicationWorkspaceGuard c.payload c.manifest c.expectedBase
    casUpdateBranch c.payload c.branch commitId c.expectedBase
  let seen ← inPhase .committed seen
    (publicationUpdate c.runId seen { status := .committed, commitId := commitId })
  publishRemote c commitId seen

/-- `f"{type(exc).__name__}:{str(exc)[:900]}"`. -/
def Exn.text : Exn → String
  | .value message => "ValueError:" ++ truncate 900 message
  | .other kind message => kind ++ ":" ++ truncate 900 message

/-- From the intent on: an exception is recorded under the phase it was raised in. -/
def publishFromIntent (c : Publishing) (operationId : String) : Script Reply := do
  let seen ← publicationUpdate c.runId none { status := .intent }
    (some ⟨operationId, c.payload.publication.kind, c.expectedBase⟩)
  (publishStages c seen).catching fun i => do
    let _ ← publicationUpdate c.runId i.seen { status := i.phase, error := some i.cause.text }
    .raise i.cause

/-- The checks of `publish` on the workspace, once the ledger has been read. -/
def publishPreflight (runId : RunId) (run : Run) (payload : TaskPayload) (manifest : Manifest) :
    Script Publishing := do
  let pub := payload.publication
  require (pub.kind ≠ .none) (.value "git_publication_not_configured")
  require (manifest.changed ≠ []) (.value "nothing_to_publish")
  let _ ← ask (.assertPathsUnfiltered payload manifest.changed)
  let shown : Option String ← ask (.branchShowCurrent payload)
  let branch ← demand shown (.value "publication_branch_mismatch")
  require (some branch = pub.branch.get "main") (.value "publication_branch_mismatch")
  let expectedBase ← demand (pub.expectedBase.or manifest.gitHead)
    (.value "publication_expected_base_missing")
  let head : Option CommitId ← ask (.revParseHead payload)
  require (head = some expectedBase) (.value "publication_base_changed")
  let existingStaged : Option (List Path) ← ask (.stagedPaths payload)
  require (existingStaged = some []) (.value "preexisting_staging_not_empty")
  publicationWorkspaceGuard payload manifest expectedBase
  return ⟨runId, run.taskId, payload, manifest, branch, expectedBase⟩

def PublicationStatus.text : PublicationStatus → String
  | .intent => "INTENT"
  | .staged => "STAGED"
  | .prepared => "PREPARED"
  | .committed => "COMMITTED"
  | .pushed => "PUSHED"
  | .remoteVerified => "REMOTE_VERIFIED"
  | .complete => "COMPLETE"
  | .abandoned => "ABANDONED"

/-- What `publish` makes of a journal row that is already there: the reply if that ends the call,
and otherwise no row is left. -/
def publishExisting (runId : RunId) : Script (Option Reply) := do
  match ← selectPublication runId with
  | none => return none
  | some existing =>
    if existing.status = .complete then
      let row ← demand (← selectPublication runId) missingRow
      return some { status := .complete, commit := row.commitId, remoteCommit := row.remoteCommit }
    require (existing.status = .abandoned)
      (.value ("publication_reconciliation_required:" ++ existing.status.text))
    .call (.deletePublication runId (some existing)) fun _ => .ret none

def requireApproval (runId : RunId) (run : Run) (payload : TaskPayload) : Script Unit := do
  if payload.ownerAcceptance then
    let approval ← selectApproval runId
    require (approval.any fun a => some a.snapshotId = run.snapshotId)
      (.value "owner_approval_missing_or_stale")

/-- `publish` on the run it has read. -/
def publishRun (runId : RunId) (run : Run) : Script Reply := do
  let task ← demand (← selectTask run.taskId) missingRow
  let payload := task.payload
  let snap ← demand (← selectSnapshot run.snapshotId) (.value "snapshot_missing")
  let _ ← ask (.assertManifestCurrent payload snap.manifest)
  match ← publishExisting runId with
  | some reply => return reply
  | none =>
    requireApproval runId run payload
    let c ← publishPreflight runId run payload snap.manifest
    let operationId : String ← ask .uuidHex
    publishFromIntent c operationId

def publish (runId : RunId) : Script Reply := do
  let run ← demand (← selectRun runId) (.value "run_not_verified")
  require (run.state = .verified) (.value "run_not_verified")
  publishRun runId run

/-! ### reconcile_publication -/

/-- What `reconcile_publication` has read. -/
structure Reconciling where
  runId : RunId
  taskId : TaskId
  payload : TaskPayload
  manifest : Manifest
  expectedBase : CommitId
  resume : Bool

def Reconciling.blocked (c : Reconciling) (reason : String) : Reply :=
  { status := .blocked, runId := c.runId, reason := reason }

def Reconciling.finalize (c : Reconciling) (commitId : CommitId) (remoteCommit : Option CommitId)
    (kind : PublicationKind) (seen : Option Publication) : Script Reply :=
  transact (.finalizePublication c.runId c.taskId commitId remoteCommit kind seen)

/-- A commit that is proven to be on the branch: bring the remote up to it. -/
def reconcileRemote (c : Reconciling) (commitId : CommitId) (seen : Option Publication) :
    Script Reply := do
  let pub := c.payload.publication
  match pub.url with
  | none => return c.blocked "publication_remote_url_missing"
  | some remoteUrl =>
    let remoteCommit ← transportLsRemote c.payload remoteUrl pub.refName
    if remoteCommit = some commitId then
      let seen ← publicationUpdate c.runId seen
        { status := .remoteVerified, commitId := commitId, remoteCommit := remoteCommit }
      c.finalize commitId remoteCommit .git seen
    else if ¬ c.resume then
      return { status := .commitProvenRemotePending, runId := c.runId, commit := commitId,
               remoteCommit := remoteCommit }
    else if remoteCommit ≠ none ∧ remoteCommit ≠ some c.expectedBase then
      return { c.blocked "remote_advanced" with remoteCommit := remoteCommit }
    else
      match ← transportPush c.payload remoteUrl commitId pub.refName with
      | none =>
        let _ ← publicationUpdate c.runId seen
          { status := .committed, commitId := commitId, error := "git_push_failed:" }
        return c.blocked "git_push_failed"
      | some _ =>
        let seen ← publicationUpdate c.runId seen { status := .pushed, commitId := commitId }
        let remoteCommit ← transportLsRemote c.payload remoteUrl pub.refName
        if remoteCommit ≠ some commitId then
          return { c.blocked "remote_verification_failed" with remoteCommit := remoteCommit }
        let seen ← publicationUpdate c.runId seen
          { status := .remoteVerified, commitId := commitId, remoteCommit := remoteCommit }
        c.finalize commitId remoteCommit .git seen

/-- The head is the commit: record that, prove the commit once more, and go on to the remote. -/
def reconcileCommitted (c : Reconciling) (commitId : CommitId) (status : PublicationStatus)
    (seen : Option Publication) : Script Reply := do
  let seen ← if status = .committed then .ret seen else
    publicationUpdate c.runId seen { status := .committed, commitId := commitId }
  let proven : Bool ←
    ask (.commitMatchesSnapshot c.payload commitId c.expectedBase c.manifest)
  if ¬ proven then
    return c.blocked "commit_not_proven"
  if c.payload.publication.kind = .gitLocal then
    c.finalize commitId none .gitLocal seen
  else
    reconcileRemote c commitId seen

/-- The commit is prepared and the branch is still at its base. -/
def reconcilePrepared (c : Reconciling) (staged : Bool) (commitId : CommitId)
    (seen : Option Publication) : Script Reply := do
  if ¬ staged then
    return c.blocked "unexpected_staging_state"
  match ← attempt (publicationWorkspaceGuard c.payload c.manifest c.expectedBase) with
  | .error reason => return c.blocked reason
  | .ok _ =>
    if ¬ c.resume then
      return { status := .preparedPendingRefUpdate, runId := c.runId, commit := commitId }
    match ← attempt (casUpdateBranch c.payload
        ((c.payload.publication.branch.get "main").getD "None") commitId c.expectedBase) with
    | .error _ => return c.blocked "publication_base_changed_during_commit"
    | .ok _ =>
      let seen ← publicationUpdate c.runId seen { status := .committed, commitId := commitId }
      reconcileCommitted c commitId .committed seen

/-- Nothing is committed and the branch is at its base. -/
def reconcileStaged (c : Reconciling) (staged : Bool) (status : PublicationStatus)
    (seen : Option Publication) : Script Reply := do
  if ¬ staged then
    let stagedRaw : Option (List Path) ← ask (.stagedPaths c.payload)
    if stagedRaw = some [] ∧ status = .intent then
      let _ ← publicationUpdate c.runId seen { status := .abandoned }
      return { status := .safeToRetry, runId := c.runId,
               reason := "no_git_side_effect_observed" }
    return c.blocked "unexpected_staging_state"
  match ← attempt (publicationWorkspaceGuard c.payload c.manifest c.expectedBase) with
  | .error reason => return c.blocked reason
  | .ok _ =>
    if ¬ c.resume then
      return { status := .stagedPendingCommit, runId := c.runId }
    let prepare : Script (Checked CommitId) := do
      let commit ← prepareSnapshotCommit c.payload c.expectedBase c.manifest
        (c.payload.publication.message c.taskId)
      return .ok commit
    match ← prepare.catching fun e => .ret (.error e) with
    | .error e =>
      let _ ← publicationUpdate c.runId seen { status := .staged, error := some (Exn.text e) }
      return c.blocked "commit_prepare_failed"
    | .ok commitId =>
      let seen ← publicationUpdate c.runId seen { status := .prepared, commitId := commitId }
      reconcilePrepared c staged commitId seen

/-- Which of the recovery paths the journal and the head select. -/
def reconcileJournal (c : Reconciling) (journal : Publication) : Script Reply := do
  let head : Option CommitId ← ask (.revParseHead c.payload)
  let staged : Bool ← ask (.stagedMatchesSnapshot c.payload c.manifest)
  match journal.commitId with
  | some commitId =>
    let proven : Bool ←
      ask (.commitMatchesSnapshot c.payload commitId c.expectedBase c.manifest)
    if ¬ proven then
      return c.blocked "commit_not_proven"
    if head = some c.expectedBase then
      reconcilePrepared c staged commitId (some journal)
    else if head = some commitId then
      reconcileCommitted c commitId journal.status (some journal)
    else
      return c.blocked "publication_base_changed"
  | none =>
    match head with
    | none => return c.blocked "commit_not_proven"
    | some observed =>
      if observed = c.expectedBase then
        reconcileStaged c staged journal.status (some journal)
      else
        -- a commit nobody recorded is adopted when it is the snapshot's
        let proven : Bool ←
          ask (.commitMatchesSnapshot c.payload observed c.expectedBase c.manifest)
        if ¬ proven then
          return c.blocked "commit_not_proven"
        let seen ← publicationUpdate c.runId (some journal)
          { status := .committed, commitId := observed }
        reconcileCommitted c observed .committed seen

/-- `reconcile_publication` on the journal and the run it has read. -/
def reconcileRun (runId : RunId) (resume : Bool) (journal : Publication) (run : Run) :
    Script Reply := do
  let task ← demand (← selectTask run.taskId) missingRow
  let snap ← demand (← selectSnapshot run.snapshotId) (.value "snapshot_missing")
  if journal.status = .complete then
    return { status := .complete, commit := journal.commitId,
             remoteCommit := journal.remoteCommit }
  match (journal.expectedBase.or task.payload.publication.expectedBase).or
      snap.manifest.gitHead with
  | none => return { status := .blocked, runId := runId,
                     reason := "publication_expected_base_missing" }
  | some expectedBase =>
    reconcileJournal ⟨runId, run.taskId, task.payload, snap.manifest, expectedBase, resume⟩
      journal

def reconcilePublication (runId : RunId) (resume : Bool) : Script Reply := do
  let journal ← selectPublication runId
  let run ← selectRun runId
  match journal with
  | none => return { status := .noPublication, runId := runId }
  | some journal => reconcileRun runId resume journal (← demand run (.value "unknown_run"))

/-! ### The commands together -/

inductive Command
  | loadPlan
  | readmit (previousRunId dependencyRunId : RunId)
  | pause (reason : String)
  | resume
  | pauseProject (projectId : ProjectId) (reason : String)
  | resumeProject (projectId : ProjectId)
  | recordProjectRemoved (projectId : ProjectId)
  | cancelTask (taskId : TaskId) (reason : String)
  | claim (workerId : String) (projectId : Option ProjectId) (repairFromRunId : Option RunId)
  | createGrant (spec : LifecycleGrantSpec)
  | revokeGrant (grantId : String)
  | lifecycleRoute (grantId : String) (calls : List RouteCall)
  | checkpoint (runId : RunId) (leaseToken reason : String)
  | submit (runId : RunId) (leaseToken : String)
  | quiesce (runId : RunId) (leaseToken : String)
  | verify (runId : RunId)
  | importReview (runId : RunId)
  | complete (runId : RunId)
  | approve (runId : RunId) (note : String)
  | abort (runId : RunId) (reason : String) (retry processInactivityConfirmed : Bool)
  | publish (runId : RunId)
  | reconcilePublication (runId : RunId) (resume : Bool)

def Command.script : Command → Script Reply
  | loadPlan => OrchKit.loadPlan
  | readmit previousRunId dependencyRunId => OrchKit.readmit previousRunId dependencyRunId
  | pause reason => OrchKit.pause reason
  | resume => OrchKit.resume
  | pauseProject projectId reason => transact (.pauseProject projectId reason)
  | resumeProject projectId => transact (.resumeProject projectId)
  | recordProjectRemoved projectId => transact (.recordProjectRemoved projectId)
  | cancelTask taskId reason => transact (.cancelTask taskId reason)
  | claim workerId projectId repairFromRunId => OrchKit.claim workerId projectId repairFromRunId
  | createGrant spec => transact (.createGrant spec)
  | revokeGrant grantId => transact (.revokeGrant grantId)
  | lifecycleRoute grantId calls => OrchKit.lifecycleRoute grantId calls
  | checkpoint runId leaseToken reason => transact (.checkpoint runId leaseToken reason)
  | submit runId leaseToken => OrchKit.submit runId leaseToken
  | quiesce runId leaseToken => OrchKit.quiesce runId leaseToken
  | verify runId => OrchKit.verify runId
  | importReview runId => OrchKit.importReview runId
  | complete runId => transact (.complete runId)
  | approve runId note => transact (.approve runId note)
  | abort runId reason retry confirmed => OrchKit.abort runId reason retry confirmed
  | publish runId => OrchKit.publish runId
  | reconcilePublication runId resuming => OrchKit.reconcilePublication runId resuming

end OrchKit
