import OrchKit.Ledger.Footprint
import OrchKit.Ledger.Kept

/-! # How tasks are admitted

Tasks come into the ledger by a plan or by a readmission, and stay under the payload
they came with. Every other operation leaves the payloads, the plans and the
readmissions on record as they are.
-/

namespace OrchKit

open Except Program

namespace Ledger

def payloadOf (L : Ledger) (taskId : TaskId) : Option TaskPayload :=
  (L.tasks.lookup taskId).map Task.payload

/-- The readmissions on record, newest first, each with the run it is filed under. -/
def readmissions (L : Ledger) : List (Option RunId × ReadmissionProof) :=
  L.events.filterMap fun event =>
    match event.kind with
    | .taskReadmitted proof => some (event.runId, proof)
    | _ => none

theorem readmissionsOf_eq (L : Ledger) (runId : RunId) :
    L.readmissionsOf runId =
      ((L.readmissions.filter fun e => e.1 = some runId).map Prod.snd).reverse := by
  rw [readmissionsOf, readmissions, List.filter_filterMap, List.map_filterMap]
  congr 1
  refine List.filterMap_congr fun event _ => ?_
  obtain ⟨kind, taskId, runId'⟩ := event
  cases kind with
  | taskReadmitted proof => by_cases h : runId' = some runId <;> simp [h]
  | _ => rfl

def isReadmission : EventKind → Bool
  | .taskReadmitted _ => true
  | _ => false

/-- No task is admitted. -/
structure NoneAdmitted (L L' : Ledger) : Prop where
  payloads : ∀ taskId, L'.payloadOf taskId = L.payloadOf taskId
  plans : L'.plans = L.plans
  readmissions : L'.readmissions = L.readmissions
  proofs : ∀ taskId, L'.readmissionProof taskId = L.readmissionProof taskId

section NoneAdmitted

variable {L L₁ L₂ : Ledger}

theorem NoneAdmitted.refl (L : Ledger) : NoneAdmitted L L :=
  ⟨fun _ => rfl, rfl, rfl, fun _ => rfl⟩

theorem NoneAdmitted.trans (h : NoneAdmitted L L₁) (h' : NoneAdmitted L₁ L₂) :
    NoneAdmitted L L₂ where
  payloads t := (h'.payloads t).trans (h.payloads t)
  plans := h'.plans.trans h.plans
  readmissions := h'.readmissions.trans h.readmissions
  proofs t := (h'.proofs t).trans (h.proofs t)

theorem noneAdmitted_of_eq (tasks : L₁.tasks = L.tasks) (plans : L₁.plans = L.plans)
    (events : L₁.events = L.events) : NoneAdmitted L L₁ where
  payloads t := by rw [payloadOf, tasks, payloadOf]
  plans := plans
  readmissions := by rw [Ledger.readmissions, events, Ledger.readmissions]
  proofs t := by rw [readmissionProof, events, readmissionProof]

theorem NoneAdmitted.record (h : NoneAdmitted L L₁) {kind : EventKind} {t : Option TaskId}
    {r : Option RunId} (hk : isReadmission kind = false) :
    NoneAdmitted L (L₁.record kind t r) where
  payloads := h.payloads
  plans := h.plans
  readmissions := by
    rw [← h.readmissions, Ledger.readmissions, record_events, List.filterMap_cons]
    cases kind with
    | taskReadmitted proof => cases hk
    | _ => rfl
  proofs t' := by
    rw [← h.proofs, readmissionProof, record_events, List.findSome?_cons]
    cases kind with
    | taskReadmitted proof => cases hk
    | _ => rfl

theorem NoneAdmitted.setStatus (h : NoneAdmitted L L₁) {t : TaskId} {status : TaskStatus} :
    NoneAdmitted L (L₁.setStatus t status) where
  payloads t' := by
    rw [← h.payloads, payloadOf, setStatus_tasks, Table.lookup_modify, payloadOf]
    split
    · cases L₁.tasks.lookup t' <;> rfl
    · rfl
  plans := h.plans
  readmissions := h.readmissions
  proofs := h.proofs

theorem NoneAdmitted.updateRun (h : NoneAdmitted L L₁) {r : RunId} {f : Run → Run} :
    NoneAdmitted L (L₁.updateRun r f) :=
  ⟨h.payloads, h.plans, h.readmissions, h.proofs⟩

end NoneAdmitted

/-! ### Transactions that admit no task -/

section Transactions

variable {L L' : Ledger} {sha : Sha256} {host : Host}

theorem scanQueue_noneAdmitted (projectId : Option ProjectId) (locks : List (RunId × Run × Task))
    (rows : List (TaskId × Task)) (L : Ledger) (scan : Scan) :
    NoneAdmitted L (scanQueue projectId locks rows L scan).2 := by
  induction rows generalizing L scan with
  | nil => exact .refl L
  | cons e rows ih =>
    obtain ⟨taskId, row⟩ := e
    unfold scanQueue
    repeat' split
    all_goals first
      | exact .refl L
      | exact ih ..
      | skip
    -- a task whose attempts are spent is blocked on the way
    refine NoneAdmitted.trans (NoneAdmitted.record ?_ ?_) (ih ..)
    · exact NoneAdmitted.setStatus (.refl L)
    · rfl

theorem startRun_noneAdmitted (runId : RunId) (run : Run) (task : Task) (branch : Option String)
    (repair : Option (RunId × SnapshotId)) :
    (L.startRun runId run task branch repair).Ensures (NoneAdmitted L) := by
  refine ensures_bind fun _ => NoneAdmitted.record (NoneAdmitted.setStatus ?_) ?_
  · exact noneAdmitted_of_eq rfl rfl rfl
  · rfl

theorem blockAtClaim_noneAdmitted {taskId : TaskId} {task : Task} {kind : EventKind}
    {reason : String} (h : isReadmission kind = false) :
    NoneAdmitted L (L.blockAtClaim taskId task kind reason).2 :=
  .record (.setStatus (.refl L)) h

theorem claimQueued_noneAdmitted (host : Host) (workerId : String)
    (projectId : Option ProjectId) :
    (L.claimQueued host workerId projectId).Ensures fun r => NoneAdmitted L r.2 := by
  have hscan := scanQueue_noneAdmitted projectId L.activeWriterLocks L.queue L {}
  have blocked {L₁ : Ledger} {taskId : TaskId} {task : Task} {kind : EventKind} {reason : String}
      (hs : NoneAdmitted L L₁) (h : isReadmission kind = false) :
      NoneAdmitted L (L₁.blockAtClaim taskId task kind reason).2 :=
    hs.trans (blockAtClaim_noneAdmitted h)
  unfold claimQueued
  generalize scanQueue projectId L.activeWriterLocks L.queue L {} = scanned at hscan ⊢
  obtain ⟨scan, L₁⟩ := scanned
  simp only
  split
  · split <;> exact hscan
  · refine ensures_bind fun identity => ?_
    split
    · exact blocked hscan rfl
    · refine ensures_bind fun uuid => ensures_bind fun rechecked => ?_
      split
      · exact blocked hscan rfl
      · refine ensures_bind fun lease => ensures_bind fun now => ?_
        rcases h : L₁.startRun _ _ _ _ _ with e | L₂
        · trivial
        · exact hscan.trans ((startRun_noneAdmitted ..).of_ok h)

theorem claimRepair_noneAdmitted (sha : Sha256) (host : Host) (workerId : String)
    (projectId : Option ProjectId) (priorRunId : RunId) :
    (L.claimRepair sha host workerId projectId priorRunId).Ensures fun r => NoneAdmitted L r.2 := by
  have kept := NoneAdmitted.refl L
  unfold claimRepair
  split
  · exact kept
  · split
    · exact kept
    · simp only
      repeat' split
      all_goals first
        | exact kept
        | skip
      refine ensures_bind fun admitted => ?_
      split
      · exact kept
      · refine ensures_bind fun uuid => ensures_bind fun rechecked => ?_
        split
        · exact kept
        · refine ensures_bind fun lease => ensures_bind fun now => ?_
          rcases h : L.startRun _ _ _ _ _ with e | L₂
          · trivial
          · exact (startRun_noneAdmitted ..).of_ok h

theorem claim_noneAdmitted (sha : Sha256) (host : Host) (workerId : String)
    (projectId : Option ProjectId) (repairFromRunId : Option RunId) :
    (L.claim sha host workerId projectId repairFromRunId).Ensures fun r => NoneAdmitted L r.2 := by
  refine ensures_bind fun _ => ensures_bind fun _ => ?_
  repeat' split
  · exact .refl L
  · exact .refl L
  · exact claimQueued_noneAdmitted ..
  · exact claimRepair_noneAdmitted ..

theorem consumeGrant_noneAdmitted (sha : Sha256) (host : Host) (grantId operationId : String) :
    (L.consumeGrant sha host grantId operationId).Ensures fun r => NoneAdmitted L r.2 := by
  refine ensures_bind fun grant => ensures_bind fun existing => ensures_bind fun _ => ?_
  simp only
  split
  · exact noneAdmitted_of_eq rfl rfl rfl
  · exact noneAdmitted_of_eq rfl rfl rfl
  · refine ensures_bind fun uuid => ensures_bind fun checked => ?_
    split
    · exact noneAdmitted_of_eq rfl rfl rfl
    · refine ensures_bind fun lease => ensures_bind fun now => ?_
      rcases h : L.startRun _ _ _ _ _ with e | L₂
      · trivial
      · exact ((startRun_noneAdmitted ..).of_ok h).trans (noneAdmitted_of_eq rfl rfl rfl)

theorem verifyResult_noneAdmitted (sha : Sha256) (runId : RunId) (run : Run)
    (payload : TaskPayload) (manifest : Manifest) (checks : List CheckResult) :
    (L.verifyResult sha runId run payload manifest checks).Ensures
      fun r => NoneAdmitted L r.2 := by
  have told {L₁ : Ledger} (h₁ : NoneAdmitted L L₁) {f : Run → Run} {status : TaskStatus}
      {kind : EventKind} (h : isReadmission kind = false) :
      NoneAdmitted L (((L₁.updateRun runId f).setStatus run.taskId status).record kind
        run.taskId runId) := .record (.setStatus (.updateRun h₁)) h
  unfold verifyResult
  simp only
  split
  · split
    · trivial
    · refine ensures_ok (told (noneAdmitted_of_eq ?_ ?_ ?_) ?_) <;> rfl
  · refine ensures_ok (told (noneAdmitted_of_eq ?_ ?_ ?_) ?_) <;> rfl

theorem prepareCheckpoint_noneAdmitted (sha : Sha256) (host : Host)
    (grantId operationId reason processState : String) (runId : RunId) (attempt : ℕ) :
    (L.prepareCheckpoint sha host grantId operationId reason processState runId attempt).Ensures
      fun r => NoneAdmitted L r.2 := by
  refine ensures_bind fun _ => ensures_bind fun _ => ensures_bind fun _ => ensures_bind fun _ => ?_
  repeat' split
  all_goals first
    | exact .refl L
    | exact noneAdmitted_of_eq rfl rfl rfl

def txnAdmits : Txn → Bool
  | .loadPlan .. | Txn.readmit .. => true
  | _ => false

theorem transaction_noneAdmitted {t : Txn} (h : txnAdmits t = false) :
    (t.run sha host L).Ensures fun r => NoneAdmitted L r.2 := by
  have kept := NoneAdmitted.refl L
  have told {L₁ : Ledger} (h₁ : NoneAdmitted L L₁) {kind : EventKind} {t : Option TaskId}
      {r : Option RunId} (h : isReadmission kind = false) :
      NoneAdmitted L (L₁.record kind t r) := h₁.record h
  cases t with
  | loadPlan | readmit => cases h
  | claim => exact claim_noneAdmitted ..
  | consumeGrant => exact consumeGrant_noneAdmitted ..
  | verifyResult => exact verifyResult_noneAdmitted ..
  | pauseProject =>
    refine ensures_bind fun _ => ensures_bind fun _ => ensures_bind fun _ => ?_
    refine ensures_ok (told (noneAdmitted_of_eq ?_ ?_ ?_) ?_) <;> rfl
  | resumeProject =>
    refine ensures_bind fun _ => ?_
    split
    · exact kept
    · refine ensures_ok (told (noneAdmitted_of_eq ?_ ?_ ?_) ?_) <;> rfl
  | recordProjectRemoved =>
    refine ensures_bind fun _ => ?_
    refine ensures_ok (told (noneAdmitted_of_eq ?_ ?_ ?_) ?_) <;> rfl
  | cancelTask =>
    refine ensures_bind fun _ => ensures_bind fun _ => ensures_bind fun _ => ?_
    split
    · exact kept
    · exact ensures_bind fun _ => ensures_bind fun _ => ensures_ok <| told kept.setStatus rfl
  | capabilityCreateFailed => exact ensures_ok <| told (kept.updateRun.setStatus) rfl
  | createGrant =>
    refine ensures_bind fun _ => ensures_bind fun _ => ensures_bind fun _ => ensures_bind fun _ =>
      ensures_ok ?_
    exact noneAdmitted_of_eq rfl rfl rfl
  | revokeGrant =>
    exact ensures_bind fun _ => ensures_bind fun _ => ensures_bind fun _ => ensures_bind fun _ =>
      noneAdmitted_of_eq rfl rfl rfl
  | reserveGrant =>
    refine ensures_bind fun _ => ensures_bind fun _ => ?_
    repeat' split
    all_goals first
      | exact kept
      | exact noneAdmitted_of_eq rfl rfl rfl
  | readyGrant =>
    exact ensures_bind fun _ => ensures_bind fun _ => ensures_bind fun _ => ensures_bind fun _ =>
      noneAdmitted_of_eq rfl rfl rfl
  | recordCheckpoint =>
    refine ensures_bind fun _ => ensures_bind fun _ => ensures_bind fun _ => ensures_bind fun _ =>
      ensures_bind fun _ => ensures_bind fun _ => ?_
    refine ensures_ok (told (noneAdmitted_of_eq ?_ ?_ ?_) ?_) <;> rfl
  | checkpoint =>
    refine ensures_bind fun _ => ensures_bind fun _ => ?_
    refine ensures_ok (told (noneAdmitted_of_eq ?_ ?_ ?_) ?_) <;> rfl
  | submit =>
    refine ensures_bind fun _ => ensures_bind fun _ => ensures_bind fun _ => ensures_bind fun _ =>
      ensures_bind fun _ => ensures_bind fun _ => ?_
    exact ensures_ok <| told kept.updateRun rfl
  | quiesce =>
    exact ensures_bind fun _ => ensures_bind fun _ => ensures_ok <| told kept.updateRun rfl
  | blockVerification =>
    exact ensures_bind fun _ => ensures_bind fun _ => ensures_ok <|
      told kept.updateRun.setStatus rfl
  | importReview =>
    refine ensures_bind fun _ => ensures_bind fun _ => ensures_bind fun _ => ?_
    split <;> exact ensures_ok <| told kept.updateRun.setStatus rfl
  | complete =>
    refine ensures_bind fun _ => ensures_bind fun _ => ensures_bind fun _ => ensures_bind
      fun _ => ?_
    repeat' split
    · exact kept.setStatus
    · exact kept
    · exact ensures_ok <| told kept.updateRun.setStatus rfl
  | approve =>
    refine ensures_bind fun _ => ensures_bind fun _ => ensures_bind fun _ => ensures_bind
      fun _ => ensures_bind fun _ => ensures_bind fun _ => ?_
    refine ensures_ok (told (NoneAdmitted.setStatus (noneAdmitted_of_eq ?_ ?_ ?_)) ?_) <;> rfl
  | abort =>
    refine ensures_bind fun _ => ensures_bind fun _ => ensures_bind fun _ => ensures_bind
      fun _ => ?_
    exact ensures_ok <| told kept.updateRun.setStatus rfl
  | finalizePublication =>
    refine ensures_ok (told (NoneAdmitted.setStatus (NoneAdmitted.updateRun
      (noneAdmitted_of_eq ?_ ?_ ?_))) ?_) <;> rfl

/-! ### Transactions that admit tasks -/

theorem insertTasks_admits (revision : String) (ordinal nextQueue : ℕ)
    (payloads : List TaskPayload) (L : Ledger) :
    (insertTasks revision ordinal nextQueue payloads L).1.plans = L.plans ∧
      (insertTasks revision ordinal nextQueue payloads L).1.events = L.events ∧
      ∀ taskId, (insertTasks revision ordinal nextQueue payloads L).1.payloadOf taskId =
        (L.payloadOf taskId).or (payloads.find? fun item => item.id = taskId) := by
  induction payloads generalizing ordinal nextQueue L with
  | nil => exact ⟨rfl, rfl, fun taskId => Option.or_none.symm⟩
  | cons item payloads ih =>
    rw [insertTasks]
    split
    next task h =>
      obtain ⟨hplans, hevents, hpayloads⟩ := ih (ordinal + 1) nextQueue L
      refine ⟨hplans, hevents, fun taskId => ?_⟩
      rw [hpayloads, List.find?_cons]
      by_cases hid : item.id = taskId
      · subst hid
        simp [payloadOf, h]
      · simp [hid]
    next h =>
      obtain ⟨hplans, hevents, hpayloads⟩ := ih (ordinal + 1) (nextQueue + 1) { L with
        tasks := L.tasks.put item.id ⟨revision, ordinal, nextQueue + 1, .planned, item⟩ }
      refine ⟨hplans, hevents, fun taskId => ?_⟩
      rw [hpayloads, List.find?_cons, payloadOf, payloadOf, Table.lookup_put]
      by_cases hid : item.id = taskId
      · subst hid
        simp [h]
      · simp [hid, Ne.symm hid]

/-- What a readmission was admitted on, in the ledger it was admitted in. -/
structure Admitted (L : Ledger) (sha : Sha256) (previousRunId dependencyRunId : RunId)
    (revision : String) (digest : Hash) (new : TaskPayload) (proof : ReadmissionProof) : Prop where
  first : L.readmissionsOf previousRunId = []
  freshPlan : L.plans.lookup revision = none
  freshTask : L.tasks.lookup new.id = none
  previous : ∃ task dependencyTaskId, L.tasks.lookup proof.previousTaskId = some task ∧
    task.status ∈ readyTaskStates ++ [.blocked] ∧
    readmissionContract task.payload new dependencyTaskId
      (task.payload.maxAttempts - L.attempts proof.previousTaskId) = .ok ()
  prior : ∃ run, L.runs.lookup proof.previousRunId = some run ∧ run.state = .needsFix
  published : ∃ row, L.publications.lookup dependencyRunId = some row ∧ row.status = .complete ∧
    row.commitId = some proof.dependencyCommit
  dependencies : L.dependenciesDone new
  newTaskId : proof.newTaskId = new.id
  planRevision : proof.planRevision = revision
  planDigest : proof.planDigest = digest
  newPayload : proof.newPayloadSha256 = sha.payload new
  dependencyRunId : proof.dependencyRunId = dependencyRunId

/-- What the guard of a readmission has seen. -/
theorem readmissionGuard_spec {view : View} {previousRunId dependencyRunId : RunId}
    {new : TaskPayload} {revision : String} {digest : Hash} {proof : ReadmissionProof}
    (h : L.readmissionGuard sha view previousRunId dependencyRunId new revision digest =
      .ok proof) :
    (∃ task dependencyTaskId, L.tasks.lookup proof.previousTaskId = some task ∧
      task.status ∈ readyTaskStates ++ [.blocked] ∧
      readmissionContract task.payload new dependencyTaskId
        (task.payload.maxAttempts - L.attempts proof.previousTaskId) = .ok ()) ∧
    (∃ row, L.publications.lookup dependencyRunId = some row ∧ row.status = .complete ∧
      row.commitId = some proof.dependencyCommit) ∧
    L.dependenciesDone new ∧ proof.newTaskId = new.id ∧ proof.planRevision = revision ∧
    proof.planDigest = digest ∧ proof.newPayloadSha256 = sha.payload new ∧
    proof.dependencyRunId = dependencyRunId := by
  obtain ⟨held, hheld, hstatus⟩ := readmissionGuard_previous h
  rw [readmissionGuard] at h
  obtain ⟨prior, -, h⟩ := bind_eq_ok_iff.mp h
  obtain ⟨dependency, -, h⟩ := bind_eq_ok_iff.mp h
  obtain ⟨-, -, h⟩ := bind_eq_ok_iff.mp h
  obtain ⟨task, htask, h⟩ := bind_eq_ok_iff.mp h
  obtain ⟨depTask, -, h⟩ := bind_eq_ok_iff.mp h
  obtain ⟨-, -, h⟩ := bind_eq_ok_iff.mp h
  obtain ⟨-, -, h⟩ := bind_eq_ok_iff.mp h
  obtain ⟨-, -, h⟩ := bind_eq_ok_iff.mp h
  obtain ⟨-, -, h⟩ := bind_eq_ok_iff.mp h
  obtain ⟨-, -, h⟩ := bind_eq_ok_iff.mp h
  obtain ⟨-, -, h⟩ := bind_eq_ok_iff.mp h
  obtain ⟨-, -, h⟩ := bind_eq_ok_iff.mp h
  obtain ⟨identity, -, h⟩ := bind_eq_ok_iff.mp h
  obtain ⟨-, -, h⟩ := bind_eq_ok_iff.mp h
  obtain ⟨⟨previousSnapshotId, oldManifest⟩, -, h⟩ := bind_eq_ok_iff.mp h
  obtain ⟨-, -, h⟩ := bind_eq_ok_iff.mp h
  obtain ⟨row, hrow, h⟩ := bind_eq_ok_iff.mp h
  obtain ⟨_, hpublished, h⟩ := bind_eq_ok_iff.mp h
  obtain ⟨commit, hcommit, h⟩ := bind_eq_ok_iff.mp h
  obtain ⟨⟨_, depManifest⟩, -, h⟩ := bind_eq_ok_iff.mp h
  obtain ⟨-, -, h⟩ := bind_eq_ok_iff.mp h
  obtain ⟨base, -, h⟩ := bind_eq_ok_iff.mp h
  obtain ⟨-, -, h⟩ := bind_eq_ok_iff.mp h
  obtain ⟨parents, -, h⟩ := bind_eq_ok_iff.mp h
  obtain ⟨-, -, h⟩ := bind_eq_ok_iff.mp h
  obtain ⟨proven, -, h⟩ := bind_eq_ok_iff.mp h
  obtain ⟨-, -, h⟩ := bind_eq_ok_iff.mp h
  obtain ⟨-, -, h⟩ := bind_eq_ok_iff.mp h
  obtain ⟨-, -, h⟩ := bind_eq_ok_iff.mp h
  obtain ⟨_, hcontract, h⟩ := bind_eq_ok_iff.mp h
  obtain ⟨_, hdone, h⟩ := bind_eq_ok_iff.mp h
  obtain ⟨-, -, h⟩ := bind_eq_ok_iff.mp h
  rw [pure_eq_ok_iff] at h
  subst h
  rw [ofOption_eq_ok_iff.mp htask, Option.some.injEq] at hheld
  subst hheld
  exact ⟨⟨task, dependency.taskId, ofOption_eq_ok_iff.mp htask, hstatus, hcontract⟩,
    ⟨row, ofOption_eq_ok_iff.mp hrow, (require_eq_ok_iff.mp hpublished).2.2.2.2.1,
      ofOption_eq_ok_iff.mp hcommit⟩,
    require_eq_ok_iff.mp hdone, rfl, rfl, rfl, rfl, rfl⟩

theorem readmissionGuard_prior {view : View} {previousRunId dependencyRunId : RunId}
    {new : TaskPayload} {revision : String} {digest : Hash} {proof : ReadmissionProof}
    (h : L.readmissionGuard sha view previousRunId dependencyRunId new revision digest =
      .ok proof) :
    ∃ run, L.runs.lookup proof.previousRunId = some run ∧ run.state = .needsFix := by
  rw [readmissionGuard] at h
  iterate 13 obtain ⟨_, -, h⟩ := bind_eq_ok_iff.mp h
  obtain ⟨_, hguard, h⟩ := bind_eq_ok_iff.mp h
  obtain ⟨run, hrun, hstate, -⟩ := repairClaimGuard_prior hguard
  -- the remaining checks only have to have passed
  repeat obtain ⟨_, -, h⟩ := bind_eq_ok_iff.mp h
  cases h
  exact ⟨run, hrun, hstate⟩

/-- A readmission that returns repeats the answer of an earlier one, or it admits the task and
cancels the one that is superseded. -/
theorem readmit_spec {previousRunId dependencyRunId : RunId} {revision : String} {digest : Hash}
    {new : TaskPayload} {reply : Reply}
    (h : L.readmit sha host previousRunId dependencyRunId revision digest new =
      .ok (reply, L')) :
    (∃ proof, L.readmissionsOf previousRunId = [proof] ∧ proof.planDigest = digest ∧
      proof.dependencyRunId = dependencyRunId ∧
      reply = { status := .readmitted, taskId := proof.newTaskId } ∧ L' = L) ∨
    ∃ proof task, L.Admitted sha previousRunId dependencyRunId revision digest new proof ∧
      task.payload = new ∧ reply = { status := .readmitted, taskId := new.id } ∧
      L' = (({ L with
          plans := L.plans.put revision digest
          tasks := L.tasks.put new.id task }.setStatus proof.previousTaskId .cancelled).record
        (.taskCancelled "superseded_by_readmission") proof.previousTaskId).record
        (.taskReadmitted proof) new.id previousRunId := by
  unfold Ledger.readmit at h
  simp only at h
  split at h
  next proof others hprevious =>
    simp only [bind_eq_ok_iff, require_eq_ok_iff, pure_eq_ok_iff, Prod.mk.injEq] at h
    obtain ⟨-, ⟨rfl, hdigest, hdependency, -⟩, rfl, rfl⟩ := h
    exact .inl ⟨proof, hprevious, hdigest, hdependency, rfl, rfl⟩
  next hfirst =>
    simp only [bind_eq_ok_iff, require_eq_ok_iff, pure_eq_ok_iff, Prod.mk.injEq] at h
    obtain ⟨-, ⟨hplan, htask⟩, proof, hguard, -, -, -, -, -, -, rfl, rfl⟩ := h
    obtain ⟨hprevious, hpublished, hdone, hnew, hrevision, hdigest, hpayload, hdependency⟩ :=
      readmissionGuard_spec hguard
    refine .inr ⟨proof, _, ?_, rfl, rfl, rfl⟩
    exact ⟨hfirst, hplan, htask, hprevious, readmissionGuard_prior hguard, hpublished, hdone, hnew,
      hrevision, hdigest, hpayload, hdependency⟩

end Transactions

/-! ### Every operation -/

/-- What an operation does to the tasks on record: it admits none, or it is one of the two
transactions that do. -/
inductive AdmissionStep (sha : Sha256) (L : Ledger) : Op → Ledger → Prop
  | kept {o : Op} {L' : Ledger} (none : NoneAdmitted L L') : AdmissionStep sha L o L'
  | loaded {revision : String} {digest : Hash} {tasks : List TaskPayload} {L' : Ledger}
      (known : ∀ item ∈ tasks, ∀ dep ∈ item.dependencies,
        dep ∈ tasks.map TaskPayload.id ∨ L.payloadOf dep ≠ .none)
      (payloads : ∀ taskId, L'.payloadOf taskId =
        (L.payloadOf taskId).or (tasks.find? fun item => item.id = taskId))
      (plans : ∀ r d, L.plans.lookup r = some d → L'.plans.lookup r = some d)
      (readmissions : L'.readmissions = L.readmissions)
      (proofs : ∀ taskId, L'.readmissionProof taskId = L.readmissionProof taskId) :
      AdmissionStep sha L (.transaction (.loadPlan revision digest tasks)) L'
  | readmitted {previousRunId dependencyRunId : RunId} {revision : String} {digest : Hash}
      {new : TaskPayload} {proof : ReadmissionProof} {L' : Ledger}
      (admitted : L.Admitted sha previousRunId dependencyRunId revision digest new proof)
      (payloads : ∀ taskId, L'.payloadOf taskId =
        if taskId = new.id then some new else L.payloadOf taskId)
      (plans : L'.plans = L.plans.put revision digest)
      (readmissions : L'.readmissions = (some previousRunId, proof) :: L.readmissions)
      (superseded : ∀ task, L.tasks.lookup proof.previousTaskId = some task →
        L'.tasks.lookup proof.previousTaskId = some { task with status := .cancelled })
      (runs : L'.runs = L.runs)
      (proofs : ∀ taskId, taskId ≠ new.id →
        L'.readmissionProof taskId = L.readmissionProof taskId) :
      AdmissionStep sha L
        (.transaction <| Txn.readmit previousRunId dependencyRunId revision digest new) L'

section Steps

variable {L L' : Ledger} {sha : Sha256} {host : Host}

theorem loadPlan_step {revision : String} {digest : Hash} {tasks : List TaskPayload} {reply : Reply}
    (h : L.loadPlan revision digest tasks = .ok (reply, L')) :
    AdmissionStep sha L (.transaction (.loadPlan revision digest tasks)) L' := by
  simp only [loadPlan, bind_eq_ok_iff, require_eq_ok_iff, noneOf_eq_ok_iff, pure_eq_ok_iff,
    Prod.mk.injEq] at h
  obtain ⟨-, -, -, hknown, -, -, -, rfl⟩ := h
  obtain ⟨hplans, hevents, hpayloads⟩ := insertTasks_admits revision 0 L.maxQueueSeq tasks
    { L with plans := if (L.plans.lookup revision).isSome then L.plans
      else L.plans.put revision digest }
  refine .loaded ?_ hpayloads ?_ ?_ fun taskId => ?_
  · intro item hitem dep hdep
    by_contra hno
    rw [not_or, not_not] at hno
    have hmem : dep ∈ tasks.flatMap fun item => item.dependencies.filter fun dep =>
        dep ∉ tasks.map TaskPayload.id ∧ L.tasks.lookup dep = none := by
      rw [List.mem_flatMap]
      refine ⟨item, hitem, List.mem_filter.mpr ⟨hdep, decide_eq_true ⟨hno.1, ?_⟩⟩⟩
      simpa [payloadOf] using hno.2
    rw [hknown] at hmem
    cases hmem
  · intro r d hr
    rw [show (Ledger.record _ _ none none).plans = _ from hplans]
    by_cases hrev : (L.plans.lookup revision).isSome
    · simpa [hrev] using hr
    · simp only [hrev, Bool.false_eq_true, if_false, Table.lookup_put]
      split
      next he =>
        subst he
        rw [hr] at hrev
        exact absurd rfl hrev
      next => exact hr
  · rw [readmissions, record_events, hevents]
    rfl
  · rw [readmissionProof, record_events, hevents]
    rfl

theorem readmit_step {previousRunId dependencyRunId : RunId} {revision : String} {digest : Hash}
    {new : TaskPayload} {reply : Reply}
    (h : L.readmit sha host previousRunId dependencyRunId revision digest new =
      .ok (reply, L')) :
    AdmissionStep sha L
      (.transaction <| Txn.readmit previousRunId dependencyRunId revision digest new) L' := by
  rcases readmit_spec h with ⟨_, -, -, -, -, rfl⟩ | ⟨proof, task, hadmitted, htask, -, rfl⟩
  · exact .kept (.refl L')
  have hne : proof.previousTaskId ≠ new.id := by
    obtain ⟨held, _, hheld, -⟩ := hadmitted.previous
    intro he
    rw [he, hadmitted.freshTask] at hheld
    cases hheld
  refine .readmitted hadmitted ?_ rfl rfl ?_ rfl fun taskId htask => ?_
  · intro taskId
    simp only [payloadOf, record_tasks, setStatus_tasks, Table.lookup_modify, Table.lookup_put]
    by_cases hid : taskId = new.id
    · subst hid
      simp [Ne.symm hne, htask]
    · simp only [hid, if_false]
      split
      · cases L.tasks.lookup taskId <;> rfl
      · rfl
  · intro held hheld
    simp only [record_tasks, setStatus_tasks, Table.lookup_modify, Table.lookup_put, if_neg hne,
      if_true, hheld, Option.map_some]
  · simp [readmissionProof, Ne.symm htask]

/-- Every atomic operation is of one of the kinds of `AdmissionStep`, provided it does not
pretend to record a readmission. -/
theorem admissionStep_after (sha : Sha256) (host : Host) (L : Ledger) {o : Op} (h : o.Admits) :
    AdmissionStep sha L o ((ledgerSemantics sha).after host L o) := by
  have kept : AdmissionStep sha L o L := AdmissionStep.kept (NoneAdmitted.refl L)
  cases o with
  | transaction t =>
    simp only [Semantics.after, ledgerSemantics]
    rcases ht : t.run sha host L with e | ⟨reply, L'⟩
    · exact kept
    · cases t with
      | loadPlan => exact loadPlan_step ht
      | readmit => exact readmit_step ht
      | _ => exact .kept ((transaction_noneAdmitted rfl).of_ok ht)
  | insertEvent kind =>
    refine .kept (NoneAdmitted.record (.refl L) ?_)
    cases kind with
    | taskReadmitted proof => exact absurd rfl (h proof)
    | _ => rfl
  | prepareCheckpoint =>
    simp only [Semantics.after, ledgerSemantics]
    split
    next hp => exact .kept ((prepareCheckpoint_noneAdmitted ..).of_ok hp)
    next => exact kept
  | insertPublication =>
    simp only [Semantics.after, ledgerSemantics]
    split
    · exact .kept (noneAdmitted_of_eq rfl rfl rfl)
    · exact kept
  | _ => exact .kept (noneAdmitted_of_eq rfl rfl rfl)

end Steps

end Ledger

end OrchKit
