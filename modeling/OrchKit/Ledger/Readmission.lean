import OrchKit.Ledger.Grants

/-! # Readmission

A task whose latest run was rejected may be superseded by a new task on top of a
dependency that was published since. The new task may not widen what the old one
was allowed, and the old one is cancelled in the same transaction.
-/

namespace OrchKit

open Except

def ReviewMode.level : ReviewMode → ℕ
  | .off => 0
  | .riskBased => 1
  | .required => 2

def PublicationKind.level : PublicationKind → ℕ
  | .none => 0
  | .gitLocal => 1
  | .git => 2

/-- `_readmission_review_contract`. -/
def readmissionReviewContract (before after : ReviewPolicy) : Checked Unit :=
  require (¬ (after.mode.level < before.mode.level ∨
      (before.mode ≠ .off ∧
        (after.reviewer ≠ before.reviewer ∨ after.placement ≠ before.placement)) ∨
      ¬ before.riskTags ⊆ after.riskTags ∨
      ¬ before.triggerTags ⊆ after.triggerTags ∨
      ¬ before.sensitivePatterns ⊆ after.sensitivePatterns ∨
      after.largeDiffFiles > before.largeDiffFiles ∨
      after.largeDiffBytes > before.largeDiffBytes ∨
      (before.reviewOnRetry ∧ ¬ after.reviewOnRetry)))
    (.value "readmission_review_contract_widened")

def TaskPayload.reviewPolicy (payload : TaskPayload) : Checked ReviewPolicy :=
  (normalizeReviewPolicy payload.review payload.requiredReview).mapError .value

/-- An entry of the new allowlist stays inside the old one. -/
def allowedEntryKept (old : List String) (entry : String) : Checked Unit := do
  let relative ← (normalizeRelativePath
    (String.ofList (entry.toList.rdropWhile (· == '/')))).mapError .value
  require (pathAllowed relative old ∧ (entry.toList.getLast? ≠ some '/' ∨
      old.any fun allowed =>
        allowed.toList.getLast? == some '/' && pathAllowed relative [allowed]))
    (.value "readmission_allowed_paths_widened")

/-- The part of `_readmission_contract` that compares the two tasks. -/
def readmissionContract (old new : TaskPayload) (dependencyTaskId : TaskId) (remaining : ℕ) :
    Checked Unit := do
  require (1 ≤ remaining ∧ new.maxAttempts ≤ remaining)
    (.value "readmission_remaining_attempts_exceeded")
  new.allowedPaths.forM (allowedEntryKept old.allowedPaths)
  require (∀ p ∈ old.protectedPaths, p ∈ new.protectedPaths)
    (.value "readmission_protected_paths_widened")
  require (old.dependencies ⊆ new.dependencies ∧ dependencyTaskId ∈ new.dependencies ∧
      old.id ∉ new.dependencies) (.value "readmission_dependencies_widened")
  let before ← old.reviewPolicy
  let after ← new.reviewPolicy
  readmissionReviewContract before after
  require (before.mode = .riskBased → after.mode = .required)
    (.value "readmission_retry_review_required")
  require (old.ownerAcceptance → new.ownerAcceptance) (.value "readmission_owner_gate_widened")
  require (new.publication.kind.level ≤ old.publication.kind.level)
    (.value "readmission_publication_permission_widened")
  require (new.publication.remote.toOption = old.publication.remote.toOption ∧
      new.publication.remoteUrl = old.publication.remoteUrl)
    (.value "readmission_publication_transport_changed")
  require (old.checks.map Check.id = new.checks.map Check.id)
    (.value "readmission_check_contract_changed")
  require (∀ pair ∈ old.checks.zip new.checks,
      (∀ f ∈ pair.1.authorityFiles, ∃ g ∈ pair.2.authorityFiles,
        g.path = f.path ∧ g.expected = f.expected) ∧
      ∀ g ∈ pair.2.authorityFiles, ∃ f ∈ pair.1.authorityFiles,
        f.path = g.path ∧ f.expected = g.expected)
    (.value "readmission_authority_paths_changed")

namespace Ledger

/-- `_readmission_snapshot`. -/
def readmissionSnapshot (L : Ledger) (sha : Sha256) (runId : RunId) (run : Run)
    (payload : TaskPayload) : Checked (SnapshotId × Manifest) := do
  let snapshotId ← ofOption run.snapshotId (.value "readmission_snapshot_run_mismatch")
  let snap ← ofOption (L.snapshots.lookup snapshotId) (.value "readmission_snapshot_run_mismatch")
  require (snap.runId = runId) (.value "readmission_snapshot_run_mismatch")
  let manifest := snap.manifest
  require (manifest.verificationEvidence.isSome ∧ snapshotId = sha.snapshotId manifest ∧
      manifest.workspace = payload.workspace ∧ manifest.gitHead = run.claimGitHead ∧
      manifest.files ≠ []) (.value "readmission_snapshot_binding_invalid")
  require (∀ f ∈ manifest.files, fileRecordValid payload f.1 f.2)
    (.value "readmission_snapshot_files_invalid")
  require (manifest.protectedFiles =
      payload.protectedPaths.map fun p => (p.1, ⟨p.2, some p.2, true⟩))
    (.value "readmission_snapshot_protected_mismatch")
  return (snapshotId, manifest)

/-- `_readmission_guard`. -/
def readmissionGuard (L : Ledger) (sha : Sha256) (view : View)
    (previousRunId dependencyRunId : RunId) (new : TaskPayload) (planRevision : String)
    (planDigest : Hash) : Checked ReadmissionProof := do
  let prior ← ofOption (L.runs.lookup previousRunId) (.value "readmission_run_missing_or_same")
  let dependency ← ofOption (L.runs.lookup dependencyRunId)
    (.value "readmission_run_missing_or_same")
  require (previousRunId ≠ dependencyRunId) (.value "readmission_run_missing_or_same")
  let task ← ofOption (L.tasks.lookup prior.taskId) missingRow
  let depTask ← ofOption (L.tasks.lookup dependency.taskId) missingRow
  let old := task.payload
  let dep := depTask.payload
  require (new.id ≠ old.id ∧ new.id ≠ dep.id ∧ new.workspace ≠ old.workspace)
    (.value "readmission_new_task_and_workspace_required")
  require (L.paused = none) (.value "readmission_paused")
  require (∀ payload ∈ [old, dep, new], ∀ p ∈ payload.projectId, L.projectPauses.lookup p = none)
    (.value "readmission_project_paused")
  view (.readmissionProjects old dep new)
  let writerKeys := [old.writerKey, dep.writerKey, new.writerKey]
  require (∀ key ∈ writerKeys, lockOf L.activeWriterLocks key = none)
    (.value "readmission_active_writer")
  let runs := writerKeys.flatMap L.runsUnder
  runs.forM fun runId => do
    let present : Bool ← view (.capabilityPresent runId)
    require (¬ present) (.value "readmission_capability_present")
  require (∀ runId ∈ runs, ∀ row ∈ L.publications.lookup runId,
      row.status = .complete ∨ row.status = .abandoned) (.value "readmission_publication_pending")
  let identity : Option CommitId × Option String ← view (.claimGitState old none)
  let _ ← L.repairClaimGuard sha view prior.taskId task previousRunId identity.1 identity.2
  let (previousSnapshotId, oldManifest) ← L.readmissionSnapshot sha previousRunId prior old
  view (.readmissionRetainedEvidence previousRunId .needsFix)
  let publication ← ofOption (L.publications.lookup dependencyRunId)
    (.value "readmission_dependency_not_published")
  require (dependency.state = .complete ∧ dependency.verifyStatus = some .pass ∧
      depTask.status = .done ∧ L.latestRun dependency.taskId = some dependencyRunId ∧
      publication.status = .complete ∧ publication.kind ≠ .none ∧
      publication.kind = dep.publication.kind) (.value "readmission_dependency_not_published")
  let commit ← ofOption publication.commitId (.value "readmission_dependency_not_published")
  let (_, depManifest) ← L.readmissionSnapshot sha dependencyRunId dependency dep
  view (.readmissionRetainedEvidence dependencyRunId .pass)
  let base ← ofOption oldManifest.gitHead (.value "readmission_dependency_base_mismatch")
  require (depManifest.gitHead = some base ∧ publication.expectedBase = some base ∧
      dep.publication.expectedBase.getD base = base)
    (.value "readmission_dependency_base_mismatch")
  let parents : List CommitId ← view (.readmissionParents dep commit)
  require (parents = [commit, base]) (.value "readmission_dependency_parent_mismatch")
  let proven : Bool ← view (.commitMatchesSnapshot dep commit base depManifest)
  require proven (.value "readmission_dependency_commit_mismatch")
  let published := L.events.findSome? fun event =>
    match event.kind with
    | .published c kind remote =>
      if event.runId = some dependencyRunId then some (c, kind, remote) else none
    | _ => none
  require (∃ p ∈ published, p.1 = commit ∧ p.2.1 = publication.kind ∧
      (publication.kind = .git →
        publication.remoteCommit = some commit ∧ p.2.2 = some commit))
    (.value "readmission_dependency_publication_evidence_changed")
  require (dep.ownerAcceptance → L.approved dependencyRunId dependency)
    (.value "readmission_dependency_owner_gate_missing")
  let remaining := old.maxAttempts - L.attempts prior.taskId
  readmissionContract old new dependency.taskId remaining
  require (L.dependenciesDone new) (.value "readmission_dependencies_not_done")
  view (.readmissionDestination new commit)
  return {
    newTaskId := new.id
    planRevision := planRevision
    planDigest := planDigest
    newPayloadSha256 := sha.payload new
    previousTaskId := prior.taskId
    previousRunId := previousRunId
    previousSnapshotId := previousSnapshotId
    dependencyRunId := dependencyRunId
    dependencyCommit := commit
    remainingAttempts := remaining
    admittedMaxAttempts := new.maxAttempts }

/-- The readmissions of a run, oldest first. -/
def readmissionsOf (L : Ledger) (previousRunId : RunId) : List ReadmissionProof :=
  (L.events.filterMap fun event =>
    match event.kind with
    | .taskReadmitted proof => if event.runId = some previousRunId then some proof else none
    | _ => none).reverse

/-- `readmit` on a single-task plan that was read, validated and prepared. -/
def readmit (L : Ledger) (sha : Sha256) (host : Host) (previousRunId dependencyRunId : RunId)
    (revision : String) (digest : Hash) (new : TaskPayload) : Checked (Reply × Ledger) := do
  let result (taskId : TaskId) : Reply := { status := .readmitted, taskId := taskId }
  match L.readmissionsOf previousRunId with
  | proof :: others =>
    require (others = [] ∧ proof.planDigest = digest ∧
        proof.dependencyRunId = dependencyRunId ∧
        (L.publications.lookup dependencyRunId).any
          (·.commitId = some proof.dependencyCommit) ∧
        (L.tasks.lookup proof.newTaskId).any
          (fun task => sha.payload task.payload = proof.newPayloadSha256) ∧
        L.plans.lookup proof.planRevision = some digest) (.value "readmission_replay_conflict")
    return (result proof.newTaskId, L)
  | [] =>
    require (L.plans.lookup revision = none ∧ L.tasks.lookup new.id = none)
      (.value "readmission_plan_or_task_already_exists")
    let proof ← L.readmissionGuard sha (host 0) previousRunId dependencyRunId new revision digest
    let task : Task := ⟨revision, 0, L.maxQueueSeq + 1, .planned, new⟩
    let _ ← L.buildContextPack (host 0) new.id task "readmission-preflight" 1
      (some proof.dependencyCommit) false
    let repeated ← L.readmissionGuard sha (host 1) previousRunId dependencyRunId new revision digest
    require (repeated = proof) (.value "readmission_proof_changed")
    let L := { L with
      plans := L.plans.put revision digest
      tasks := L.tasks.put new.id task }
    let L := (L.setStatus proof.previousTaskId .cancelled).record
      (.taskCancelled "superseded_by_readmission") proof.previousTaskId
    return (result new.id, L.record (.taskReadmitted proof) new.id previousRunId)

end Ledger

end OrchKit
