import OrchKit.Ledger.Footprint
import OrchKit.Lifecycle.Exclusion

/-! # Grants act once

Whatever routes, revocations and other commands run side by side, a grant moves from
issued to reserved to consumed, and the records of its operations only move on. The
one transaction that starts a run of a grant finds it reserved and leaves it consumed,
and the one that records a checkpoint finds it prepared and leaves it done, so that
neither can be repeated for the same grant or the same operation.
-/

namespace OrchKit

open Except Program Ledger Script

variable {sha : Sha256} {host : Host} {L L' : Ledger} {grantId operationId : String}

/-- The phases the record of an operation may have later on. -/
def OperationPhase.later : OperationPhase → List OperationPhase
  | .prepared => [.prepared, .pending, .ready, .refused, .done]
  | .pending => [.pending, .ready]
  | .ready => [.ready]
  | .refused => [.refused]
  | .done => [.done]

theorem OperationPhase.later_trans {p q r : OperationPhase} (h : q ∈ p.later) (h' : r ∈ q.later) :
    r ∈ p.later := by
  cases p <;> cases q <;> cases r <;> simp_all [later]

/-- What an operation does to the grants and the records of their operations. -/
inductive GrantStep (L : Ledger) : Op → Ledger → Prop
  | kept {o : Op} {L' : Ledger} (grants : L'.grants = L.grants)
      (operations : L'.operations = L.operations) : GrantStep L o L'
  | created {spec : LifecycleGrantSpec} {grantId : String} {L' : Ledger}
      (fresh : L.grants.lookup grantId = none)
      (grants : L'.grants = L.grants.put grantId { spec := spec })
      (operations : L'.operations = L.operations) :
      GrantStep L (.transaction (.createGrant spec)) L'
  | revoked {grantId : String} {grant : Grant} {L' : Ledger}
      (found : L.grants.lookup grantId = some grant) (issued : grant.status = .issued)
      (grants : L'.grants = L.grants.put grantId { grant with status := .revoked })
      (operations : L'.operations = L.operations) :
      GrantStep L (.transaction (.revokeGrant grantId)) L'
  | reserved {grantId operationId : String} {grant : Grant} {record : LifecycleOperation}
      {L' : Ledger} (found : L.grants.lookup grantId = some grant) (issued : grant.status = .issued)
      (fresh : L.operations.lookup (grantId, operationId) = none) (kind : record.kind = .claim)
      (phase : record.phase = .prepared)
      (grants : L'.grants = L.grants.put grantId
        { grant with status := .reserved, claimId := some operationId })
      (operations : L'.operations = L.operations.put (grantId, operationId) record) :
      GrantStep L (.transaction (.reserveGrant grantId operationId)) L'
  | consumed {grantId operationId : String} {grant : Grant} {record record' : LifecycleOperation}
      {L' : Ledger} (found : L.grants.lookup grantId = some grant)
      (reserved : grant.status = .reserved) (claimId : grant.claimId = some operationId)
      (prepared : L.operations.lookup (grantId, operationId) = some record)
      (kind : record.kind = .claim) (phase : record.phase = .prepared)
      (kind' : record'.kind = .claim) (phase' : record'.phase = .refused ∨ record'.phase = .pending)
      (grants : L'.grants = L.grants.put grantId { grant with status := .consumed })
      (operations : L'.operations = L.operations.put (grantId, operationId) record') :
      GrantStep L (.transaction (.consumeGrant grantId operationId)) L'
  | ready {grantId operationId : String} {runId : RunId} {attempt : ℕ}
      {record record' : LifecycleOperation} {L' : Ledger}
      (pending : L.operations.lookup (grantId, operationId) = some record)
      (kind : record.kind = .claim) (phase : record.phase = .pending)
      (kind' : record'.kind = .claim) (phase' : record'.phase = .ready)
      (grants : L'.grants = L.grants)
      (operations : L'.operations = L.operations.put (grantId, operationId) record') :
      GrantStep L (.transaction (.readyGrant grantId operationId runId attempt)) L'
  | anchored {grantId operationId reason processState : String} {runId : RunId} {attempt : ℕ}
      {grant : Grant} {checkpointIds : List Hash} {record : LifecycleOperation} {L' : Ledger}
      (found : L.grants.lookup grantId = some grant)
      (fresh : L.operations.lookup (grantId, operationId) = none)
      (kind : record.kind = .checkpoint) (phase : record.phase = .prepared)
      (grants : L'.grants = L.grants.put grantId { grant with checkpointIds := checkpointIds })
      (operations : L'.operations = L.operations.put (grantId, operationId) record) :
      GrantStep L (.prepareCheckpoint grantId operationId reason processState runId attempt) L'
  | recorded {grantId operationId reason processState : String} {runId : RunId} {attempt : ℕ}
      {grant : Grant} {claim record record' : LifecycleOperation} {L' : Ledger}
      (prepared : L.operations.lookup (grantId, operationId) = some record)
      (kind : record.kind = .checkpoint) (phase : record.phase = .prepared)
      (kind' : record'.kind = .checkpoint) (phase' : record'.phase = .done)
      (grants : L'.grants = L.grants)
      (operations : L'.operations = L.operations.put (grantId, operationId) record') :
      GrantStep L (.transaction
        (.recordCheckpoint grantId operationId reason processState runId attempt grant claim)) L'

namespace Ledger

theorem loadGrant_eq_ok {found : Option Grant} (h : L.loadGrant grantId = .ok found) :
    L.grants.lookup grantId = found := by
  simp only [loadGrant, bind_eq_ok_iff, pure_eq_ok_iff] at h
  obtain ⟨-, -, h⟩ := h
  exact h

theorem loadOperation_eq_ok {found : Option LifecycleOperation}
    (h : L.loadOperation grantId operationId = .ok found) :
    L.operations.lookup (grantId, operationId) = found := by
  simp only [loadOperation, bind_eq_ok_iff, pure_eq_ok_iff] at h
  obtain ⟨-, -, h⟩ := h
  exact h

theorem liveGrant_eq_ok {grant : Grant} (h : L.liveGrant grantId = .ok grant) :
    L.grants.lookup grantId = some grant := by
  simp only [liveGrant, bind_eq_ok_iff, ofOption_eq_ok_iff, pure_eq_ok_iff] at h
  obtain ⟨found, hfound, _, rfl, -, -, rfl⟩ := h
  exact loadGrant_eq_ok hfound

/-- A claim of a grant that returns has consumed it, and refused or started a run. -/
theorem consumeGrant_step {reply : Reply}
    (h : L.consumeGrant sha host grantId operationId = .ok (reply, L')) :
    GrantStep L (.transaction (.consumeGrant grantId operationId)) L' ∧
      ∃ grant, L.grants.lookup grantId = some grant ∧ grant.status = .reserved ∧
        L'.grants.lookup grantId = some { grant with status := .consumed } := by
  simp only [consumeGrant, bind_eq_ok_iff, require_eq_ok_iff] at h
  obtain ⟨grant, hgrant, existing, hexisting, -, ⟨hreserved, hclaim, rfl⟩, h⟩ := h
  have hfound := liveGrant_eq_ok hgrant
  have hprepared := loadOperation_eq_ok hexisting
  have step {L₁ : Ledger} {record : LifecycleOperation}
      (grants : L₁.grants = L.grants.put grantId { grant with status := .consumed })
      (operations : L₁.operations = L.operations.put (grantId, operationId) record)
      (kind : record.kind = .claim) (phase : record.phase = .refused ∨ record.phase = .pending) :
      GrantStep L (.transaction (.consumeGrant grantId operationId)) L₁ ∧
        ∃ grant, L.grants.lookup grantId = some grant ∧ grant.status = .reserved ∧
          L₁.grants.lookup grantId = some { grant with status := .consumed } := by
    refine ⟨.consumed hfound hreserved hclaim hprepared rfl rfl kind phase grants operations,
      grant, hfound, hreserved, ?_⟩
    rw [grants, Table.lookup_put, if_pos rfl]
  split at h
  next => cases h; exact step rfl rfl rfl (.inl rfl)
  next => cases h; exact step rfl rfl rfl (.inl rfl)
  next =>
    simp only [bind_eq_ok_iff, catchValue_eq_ok_iff] at h
    obtain ⟨uuid, -, _, ⟨⟨head, branch⟩, -, rfl⟩ | ⟨reason, -, rfl⟩, h⟩ := h
    · simp only [bind_eq_ok_iff, pure_eq_ok_iff, Prod.mk.injEq] at h
      obtain ⟨lease, -, now, -, L₂, hstart, -, rfl⟩ := h
      simp only [startRun, bind_eq_ok_iff, pure_eq_ok_iff] at hstart
      obtain ⟨-, -, rfl⟩ := hstart
      exact step rfl rfl rfl (.inr rfl)
    · cases h
      exact step rfl rfl rfl (.inl rfl)

theorem reserveGrant_step {reply : Reply}
    (h : L.reserveGrant sha grantId operationId = .ok (reply, L')) :
    GrantStep L (.transaction (.reserveGrant grantId operationId)) L' := by
  simp only [reserveGrant, bind_eq_ok_iff] at h
  obtain ⟨grant, hgrant, previous, hprevious, h⟩ := h
  split at h
  · split at h
    · cases h
      exact .kept rfl rfl
    · split at h <;> cases h <;> exact .kept rfl rfl
  · split at h
    next => cases h; exact .kept rfl rfl
    next hissued =>
      cases h
      exact .reserved (liveGrant_eq_ok hgrant) (not_not.mp hissued) (loadOperation_eq_ok hprevious)
        rfl rfl rfl rfl

theorem prepareCheckpoint_step {reason processState : String} {runId : RunId} {attempt : ℕ}
    {start : CheckpointStart} (h : L.prepareCheckpoint sha host grantId operationId reason
      processState runId attempt = .ok (start, L')) :
    GrantStep L (.prepareCheckpoint grantId operationId reason processState runId attempt) L' := by
  simp only [prepareCheckpoint, bind_eq_ok_iff] at h
  obtain ⟨grant, hgrant, claim, -, -, -, previous, hprevious, h⟩ := h
  split at h
  · repeat' split at h
    all_goals cases h
    all_goals exact .kept rfl rfl
  · split at h
    · cases h
      exact .kept rfl rfl
    · split at h <;> cases h
      · exact .kept rfl rfl
      · exact .anchored (liveGrant_eq_ok hgrant) (loadOperation_eq_ok hprevious) rfl rfl rfl rfl

/-! ### The other transactions -/

/-- The grants and the records of their operations are as they were. -/
def GrantsKept (L L' : Ledger) : Prop := L'.grants = L.grants ∧ L'.operations = L.operations

theorem GrantsKept.step {o : Op} (h : L.GrantsKept L') : GrantStep L o L' := .kept h.1 h.2

theorem insertTasks_grantsKept (revision : String) (ordinal nextQueue : ℕ)
    (payloads : List TaskPayload) (L : Ledger) :
    L.GrantsKept (insertTasks revision ordinal nextQueue payloads L).1 := by
  induction payloads generalizing ordinal nextQueue L with
  | nil => exact ⟨rfl, rfl⟩
  | cons payload payloads ih =>
    unfold insertTasks
    split
    · exact ih ..
    · exact ih (ordinal + 1) (nextQueue + 1) { L with
        tasks := L.tasks.put payload.id ⟨revision, ordinal, nextQueue + 1, .planned, payload⟩ }

theorem scanQueue_grantsKept (projectId : Option ProjectId) (locks : List (RunId × Run × Task))
    (rows : List (TaskId × Task)) (L : Ledger) (scan : Scan) :
    L.GrantsKept (scanQueue projectId locks rows L scan).2 := by
  induction rows generalizing L scan with
  | nil => exact ⟨rfl, rfl⟩
  | cons e rows ih =>
    obtain ⟨taskId, row⟩ := e
    unfold scanQueue
    repeat' split
    all_goals first
      | exact ⟨rfl, rfl⟩
      | exact ih ..

theorem startRun_grantsKept (runId : RunId) (run : Run) (task : Task) (branch : Option String)
    (repair : Option (RunId × SnapshotId)) :
    (L.startRun runId run task branch repair).Ensures L.GrantsKept :=
  ensures_bind fun _ => ⟨rfl, rfl⟩

theorem claimQueued_grantsKept (host : Host) (workerId : String) (projectId : Option ProjectId) :
    (L.claimQueued host workerId projectId).Ensures fun r => L.GrantsKept r.2 := by
  have hscan := scanQueue_grantsKept projectId L.activeWriterLocks L.queue L {}
  unfold claimQueued
  generalize scanQueue projectId L.activeWriterLocks L.queue L {} = scanned at hscan ⊢
  obtain ⟨scan, L₁⟩ := scanned
  simp only
  split
  · split <;> exact hscan
  · refine ensures_bind fun identity => ?_
    split
    · exact hscan
    · refine ensures_bind fun uuid => ensures_bind fun rechecked => ?_
      split
      · exact hscan
      · refine ensures_bind fun lease => ensures_bind fun now => ?_
        rcases h : L₁.startRun _ _ _ _ _ with e | L₂
        · trivial
        · obtain ⟨hg, ho⟩ := (startRun_grantsKept ..).of_ok h
          exact ⟨hg.trans hscan.1, ho.trans hscan.2⟩

theorem claimRepair_grantsKept (sha : Sha256) (host : Host) (workerId : String)
    (projectId : Option ProjectId) (priorRunId : RunId) :
    (L.claimRepair sha host workerId projectId priorRunId).Ensures fun r => L.GrantsKept r.2 := by
  have kept : L.GrantsKept L := ⟨rfl, rfl⟩
  unfold claimRepair
  split
  · exact kept
  · split
    · exact kept
    · simp only
      repeat' split
      all_goals first
        | exact kept
        | skip
      refine ensures_bind fun admitted => ?_
      split
      · exact kept
      · refine ensures_bind fun uuid => ensures_bind fun rechecked => ?_
        split
        · exact kept
        · refine ensures_bind fun lease => ensures_bind fun now => ?_
          rcases h : L.startRun _ _ _ _ _ with e | L₂
          · trivial
          · exact (startRun_grantsKept ..).of_ok h

theorem claim_grantsKept (sha : Sha256) (host : Host) (workerId : String)
    (projectId : Option ProjectId) (repairFromRunId : Option RunId) :
    (L.claim sha host workerId projectId repairFromRunId).Ensures fun r => L.GrantsKept r.2 := by
  refine ensures_bind fun _ => ensures_bind fun _ => ?_
  repeat' split
  · exact ⟨rfl, rfl⟩
  · exact ⟨rfl, rfl⟩
  · exact claimQueued_grantsKept ..
  · exact claimRepair_grantsKept ..

theorem readmit_grantsKept (sha : Sha256) (host : Host) (previousRunId dependencyRunId : RunId)
    (revision : String) (digest : Hash) (task : TaskPayload) :
    (L.readmit sha host previousRunId dependencyRunId revision digest task).Ensures
      fun r => L.GrantsKept r.2 := by
  unfold Ledger.readmit
  simp only
  split
  · exact ensures_bind fun _ => ⟨rfl, rfl⟩
  · exact ensures_bind fun _ => ensures_bind fun _ => ensures_bind fun _ => ensures_bind fun _ =>
      ensures_bind fun _ => ⟨rfl, rfl⟩

theorem verifyResult_grantsKept (sha : Sha256) (runId : RunId) (run : Run) (payload : TaskPayload)
    (manifest : Manifest) (checks : List CheckResult) :
    (L.verifyResult sha runId run payload manifest checks).Ensures fun r => L.GrantsKept r.2 := by
  unfold verifyResult
  simp only
  repeat' split
  all_goals first
    | exact ⟨rfl, rfl⟩
    | trivial

theorem createGrant_step {spec : LifecycleGrantSpec} {reply : Reply}
    (h : L.createGrant sha host spec = .ok (reply, L')) :
    GrantStep L (.transaction (.createGrant spec)) L' := by
  simp only [createGrant, bind_eq_ok_iff, require_eq_ok_iff, pure_eq_ok_iff, Prod.mk.injEq] at h
  obtain ⟨-, -, grantId, -, -, -, -, hfresh, -, rfl⟩ := h
  exact .created hfresh rfl rfl

theorem revokeGrant_step {reply : Reply} (h : L.revokeGrant grantId = .ok (reply, L')) :
    GrantStep L (.transaction (.revokeGrant grantId)) L' := by
  simp only [revokeGrant, bind_eq_ok_iff, require_eq_ok_iff, ofOption_eq_ok_iff, pure_eq_ok_iff,
    Prod.mk.injEq] at h
  obtain ⟨-, -, _, hfound, grant, rfl, -, hissued, -, rfl⟩ := h
  exact .revoked (loadGrant_eq_ok hfound) hissued rfl rfl

theorem readyGrant_step {runId : RunId} {attempt : ℕ} {reply : Reply}
    (h : L.readyGrant sha host grantId operationId runId attempt = .ok (reply, L')) :
    GrantStep L (.transaction (.readyGrant grantId operationId runId attempt)) L' := by
  simp only [readyGrant, bind_eq_ok_iff, require_eq_ok_iff, pure_eq_ok_iff, Prod.mk.injEq] at h
  obtain ⟨grant, -, current, hcurrent, -, -, -, ⟨-, -, -, rfl⟩, -, rfl⟩ := h
  exact .ready (loadOperation_eq_ok hcurrent) rfl rfl rfl rfl rfl rfl

/-- A checkpoint that is recorded was prepared before, and is done. -/
theorem recordCheckpoint_step {reason processState : String} {runId : RunId} {attempt : ℕ}
    {grant : Grant} {claim : LifecycleOperation} {reply : Reply}
    (h : L.recordCheckpoint sha host grantId operationId reason processState runId attempt grant
      claim = .ok (reply, L')) :
    GrantStep L (.transaction (.recordCheckpoint grantId operationId reason processState runId
      attempt grant claim)) L' ∧
      (∃ record, L.operations.lookup (grantId, operationId) = some record ∧
        record.phase = .prepared) ∧
      ∃ record, L'.operations.lookup (grantId, operationId) = some record ∧
        record.phase = .done := by
  simp only [recordCheckpoint, bind_eq_ok_iff, require_eq_ok_iff, pure_eq_ok_iff,
    Prod.mk.injEq] at h
  obtain ⟨_, -, current, hcurrent, _, -, _, -, -, ⟨-, -, -, -, rfl, -⟩, -, -, -, rfl⟩ := h
  have prepared := loadOperation_eq_ok hcurrent
  refine ⟨.recorded prepared rfl rfl rfl rfl rfl rfl, ⟨_, prepared, rfl⟩, ?_⟩
  exact ⟨_, (Table.lookup_put ..).trans (if_pos rfl), rfl⟩

theorem grantStep_of_ensures {o : Op} {x : Checked (Reply × Ledger)} {reply : Reply}
    (h : x.Ensures fun r => L.GrantsKept r.2) (hx : x = .ok (reply, L')) : GrantStep L o L' :=
  (h.of_ok hx).step

theorem transaction_step {t : Txn} {reply : Reply} (h : t.run sha host L = .ok (reply, L')) :
    GrantStep L (.transaction t) L' := by
  have done : L.GrantsKept L := ⟨rfl, rfl⟩
  cases t with
  | createGrant => exact createGrant_step h
  | revokeGrant => exact revokeGrant_step h
  | reserveGrant => exact reserveGrant_step h
  | consumeGrant => exact (consumeGrant_step h).1
  | readyGrant => exact readyGrant_step h
  | recordCheckpoint => exact (recordCheckpoint_step h).1
  | loadPlan revision digest tasks =>
    refine grantStep_of_ensures (ensures_bind fun _ => ensures_bind fun _ => ensures_bind
      fun _ => ?_) h
    exact insertTasks_grantsKept ..
  | readmit => exact grantStep_of_ensures (readmit_grantsKept ..) h
  | claim => exact grantStep_of_ensures (claim_grantsKept ..) h
  | verifyResult => exact grantStep_of_ensures (verifyResult_grantsKept ..) h
  | capabilityCreateFailed => cases h; exact .kept rfl rfl
  | finalizePublication => cases h; exact .kept rfl rfl
  | pauseProject =>
    refine grantStep_of_ensures (ensures_bind fun _ => ensures_bind fun _ => ensures_bind
      fun _ => ?_) h
    exact ⟨rfl, rfl⟩
  | resumeProject =>
    refine grantStep_of_ensures (ensures_bind fun _ => ?_) h
    split <;> exact ⟨rfl, rfl⟩
  | recordProjectRemoved =>
    refine grantStep_of_ensures (ensures_bind fun _ => ?_) h
    exact ⟨rfl, rfl⟩
  | cancelTask =>
    refine grantStep_of_ensures (ensures_bind fun _ => ensures_bind fun _ => ensures_bind
      fun _ => ?_) h
    split
    · exact done
    · exact ensures_bind fun _ => ensures_bind fun _ => ⟨rfl, rfl⟩
  | checkpoint =>
    refine grantStep_of_ensures (ensures_bind fun _ => ensures_bind fun _ => ?_) h
    exact ⟨rfl, rfl⟩
  | submit =>
    refine grantStep_of_ensures (ensures_bind fun _ => ensures_bind fun _ => ensures_bind
      fun _ => ensures_bind fun _ => ensures_bind fun _ => ensures_bind fun _ => ?_) h
    exact ⟨rfl, rfl⟩
  | quiesce =>
    refine grantStep_of_ensures (ensures_bind fun _ => ensures_bind fun _ => ?_) h
    exact ⟨rfl, rfl⟩
  | blockVerification =>
    refine grantStep_of_ensures (ensures_bind fun _ => ensures_bind fun _ => ?_) h
    exact ⟨rfl, rfl⟩
  | importReview =>
    refine grantStep_of_ensures (ensures_bind fun _ => ensures_bind fun _ => ensures_bind
      fun _ => ?_) h
    split <;> exact ⟨rfl, rfl⟩
  | complete =>
    refine grantStep_of_ensures (ensures_bind fun _ => ensures_bind fun _ => ensures_bind
      fun _ => ensures_bind fun _ => ?_) h
    repeat' split
    all_goals exact ⟨rfl, rfl⟩
  | approve =>
    refine grantStep_of_ensures (ensures_bind fun _ => ensures_bind fun _ => ensures_bind
      fun _ => ensures_bind fun _ => ensures_bind fun _ => ensures_bind fun _ => ?_) h
    exact ⟨rfl, rfl⟩
  | abort =>
    refine grantStep_of_ensures (ensures_bind fun _ => ensures_bind fun _ => ensures_bind
      fun _ => ensures_bind fun _ => ?_) h
    exact ⟨rfl, rfl⟩

/-- Every atomic operation is of one of the kinds of `GrantStep`. -/
theorem grantStep_after (sha : Sha256) (host : Host) (L : Ledger) (o : Op) :
    GrantStep L o ((ledgerSemantics sha).after host L o) := by
  cases o with
  | transaction t =>
    simp only [Semantics.after, ledgerSemantics]
    rcases h : t.run sha host L with e | ⟨reply, L'⟩
    · exact .kept rfl rfl
    · exact transaction_step h
  | prepareCheckpoint =>
    simp only [Semantics.after, ledgerSemantics]
    split
    next h => exact prepareCheckpoint_step h
    next => exact .kept rfl rfl
  | insertPublication =>
    simp only [Semantics.after, ledgerSemantics]
    split <;> exact .kept rfl rfl
  | _ => exact .kept rfl rfl

end Ledger

/-! ### What a step keeps -/

/-- The record of every operation stays one of the same kind and has moved on at most; once its
disposition is final it stays as it is. -/
def DispositionsKept (L L' : Ledger) : Prop :=
  ∀ key record, L.operations.lookup key = some record →
    ∃ record', L'.operations.lookup key = some record' ∧ record'.kind = record.kind ∧
      record'.phase ∈ record.phase.later ∧ (record.reply.status ≠ .unknown → record' = record)

/-- A claim that is prepared is that of a reserved grant. -/
def PreparedReserved (L : Ledger) : Prop :=
  ∀ grantId operationId record, L.operations.lookup (grantId, operationId) = some record →
    record.kind = .claim → record.phase = .prepared →
      ∃ grant, L.grants.lookup grantId = some grant ∧ grant.status = .reserved ∧
        grant.claimId = some operationId

def Consumed (L : Ledger) (grantId : String) : Prop :=
  ∃ grant, L.grants.lookup grantId = some grant ∧ grant.status = .consumed

def Recorded (L : Ledger) (key : String × String) : Prop :=
  ∃ record, L.operations.lookup key = some record ∧ record.phase = .done

theorem DispositionsKept.refl (L : Ledger) : DispositionsKept L L := by
  intro key record h
  refine ⟨record, h, rfl, ?_, fun _ => rfl⟩
  cases record.phase <;> decide

theorem DispositionsKept.trans {L₁ L₂ L₃ : Ledger} (h : DispositionsKept L₁ L₂)
    (h' : DispositionsKept L₂ L₃) : DispositionsKept L₁ L₃ := by
  intro key record hr
  obtain ⟨record', hr', hkind, hphase, hfinal⟩ := h key record hr
  obtain ⟨record'', hr'', hkind', hphase', hfinal'⟩ := h' key record' hr'
  refine ⟨record'', hr'', hkind'.trans hkind, OperationPhase.later_trans hphase hphase', ?_⟩
  intro hs
  have heq := hfinal hs
  subst heq
  exact hfinal' hs

theorem dispositionsKept_of_put {key : String × String} {record' : LifecycleOperation}
    (operations : L'.operations = L.operations.put key record')
    (h : ∀ record, L.operations.lookup key = some record → record'.kind = record.kind ∧
      record'.phase ∈ record.phase.later ∧ record.reply.status = .unknown) :
    DispositionsKept L L' := by
  intro key' record hr
  by_cases hk : key' = key
  · subst hk
    obtain ⟨hkind, hphase, hunknown⟩ := h record hr
    refine ⟨record', ?_, hkind, hphase, fun hs => absurd hunknown hs⟩
    rw [operations, Table.lookup_put, if_pos rfl]
  · obtain ⟨record₁, hr₁, rest⟩ := DispositionsKept.refl L key' record hr
    exact ⟨record₁, by rw [operations, Table.lookup_put, if_neg hk]; exact hr₁, rest⟩

namespace GrantStep

variable {o : Op}

theorem dispositionsKept (h : GrantStep L o L') : DispositionsKept L L' := by
  have of_eq (operations : L'.operations = L.operations) : DispositionsKept L L' := by
    intro key record hr
    obtain ⟨record', hr', rest⟩ := DispositionsKept.refl L key record hr
    exact ⟨record', by rw [operations]; exact hr', rest⟩
  have moved {key : String × String} {record record' : LifecycleOperation}
      (found : L.operations.lookup key = some record)
      (operations : L'.operations = L.operations.put key record')
      (kind : record'.kind = record.kind) (phase : record'.phase ∈ record.phase.later)
      (unknown : record.reply.status = .unknown) : DispositionsKept L L' := by
    refine dispositionsKept_of_put operations fun row hrow => ?_
    rw [found] at hrow
    cases hrow
    exact ⟨kind, phase, unknown⟩
  have fresh {key : String × String} {record' : LifecycleOperation}
      (missing : L.operations.lookup key = none)
      (operations : L'.operations = L.operations.put key record') : DispositionsKept L L' := by
    refine dispositionsKept_of_put operations fun row hrow => ?_
    rw [missing] at hrow
    cases hrow
  cases h with
  | kept _ operations | created _ _ operations | revoked _ _ _ operations => exact of_eq operations
  | reserved _ _ missing _ _ _ operations => exact fresh missing operations
  | anchored _ missing _ _ _ operations => exact fresh missing operations
  | consumed _ _ _ found kind phase kind' phase' _ operations =>
    refine moved found operations (kind'.trans kind.symm) ?_
      (by simp only [LifecycleOperation.reply, phase])
    rw [phase]
    rcases phase' with h | h <;> rw [h] <;> decide
  | ready found kind phase kind' phase' _ operations
  | recorded found kind phase kind' phase' _ operations =>
    refine moved found operations (kind'.trans kind.symm) ?_
      (by simp only [LifecycleOperation.reply, phase])
    rw [phase, phase']
    decide

theorem consumed_stays (h : GrantStep L o L') {g : String} (hc : Consumed L g) :
    Consumed L' g := by
  obtain ⟨grant, hg, hs⟩ := hc
  have put {grantId : String} {grant' : Grant}
      (grants : L'.grants = L.grants.put grantId grant')
      (h : grantId = g → grant'.status = .consumed) : Consumed L' g := by
    by_cases hid : g = grantId
    · refine ⟨grant', ?_, h hid.symm⟩
      rw [grants, Table.lookup_put, if_pos hid]
    · exact ⟨grant, by rw [grants, Table.lookup_put, if_neg hid]; exact hg, hs⟩
  cases h with
  | kept grants | ready _ _ _ _ _ grants | recorded _ _ _ _ _ grants =>
    exact ⟨grant, grants ▸ hg, hs⟩
  | created fresh grants =>
    refine put grants fun hid => ?_
    rw [hid, hg] at fresh
    cases fresh
  | revoked found issued grants | reserved found issued _ _ _ grants =>
    refine put grants fun hid => ?_
    rw [hid, hg] at found
    cases found
    rw [hs] at issued
    cases issued
  | consumed _ _ _ _ _ _ _ _ grants => exact put grants fun _ => rfl
  | anchored found _ _ _ grants =>
    refine put grants fun hid => ?_
    rw [hid, hg] at found
    cases found
    exact hs

theorem preparedReserved (h : GrantStep L o L') (hL : PreparedReserved L) :
    PreparedReserved L' := by
  intro g op record hr hkind hphase
  cases h with
  | kept grants operations =>
    rw [grants]
    exact hL g op record (operations ▸ hr) hkind hphase
  | created fresh grants operations =>
    rw [operations] at hr
    obtain ⟨grant, hg, rest⟩ := hL g op record hr hkind hphase
    rw [grants, Table.lookup_put]
    split
    next hid => rw [hid, fresh] at hg; cases hg
    next => exact ⟨grant, hg, rest⟩
  | revoked found issued grants operations =>
    rw [operations] at hr
    obtain ⟨grant, hg, hs, rest⟩ := hL g op record hr hkind hphase
    rw [grants, Table.lookup_put]
    split
    next hid =>
      rw [hid, found] at hg
      cases hg
      rw [issued] at hs
      cases hs
    next => exact ⟨grant, hg, hs, rest⟩
  | @reserved g₀ op₀ grant₀ _ _ found issued _ _ _ grants operations =>
    rw [grants, Table.lookup_put]
    rw [operations, Table.lookup_put] at hr
    split at hr
    next hkey =>
      cases hkey
      exact ⟨_, if_pos rfl, rfl, rfl⟩
    next =>
      obtain ⟨grant, hg, hs, rest⟩ := hL g op record hr hkind hphase
      split
      next hid =>
        rw [hid, found] at hg
        cases hg
        rw [issued] at hs
        cases hs
      next => exact ⟨grant, hg, hs, rest⟩
  | @consumed g₀ op₀ grant₀ _ _ _ found reserved claimId _ _ _ kind' phase' grants operations =>
    rw [operations, Table.lookup_put] at hr
    split at hr
    next hkey =>
      cases hr
      rcases phase' with h | h <;> rw [h] at hphase <;> cases hphase
    next hkey =>
      obtain ⟨grant, hg, hs, hid⟩ := hL g op record hr hkind hphase
      rw [grants, Table.lookup_put, if_neg]
      · exact ⟨grant, hg, hs, hid⟩
      · -- another claim of the same grant would have reserved it under its own id
        rintro rfl
        rw [found] at hg
        cases hg
        rw [claimId] at hid
        cases hid
        exact hkey rfl
  | ready _ _ _ _ phase' grants operations | recorded _ _ _ _ phase' grants operations =>
    rw [operations, Table.lookup_put] at hr
    split at hr
    next =>
      cases hr
      rw [phase'] at hphase
      cases hphase
    next =>
      rw [grants]
      exact hL g op record hr hkind hphase
  | anchored found _ kind' _ grants operations =>
    rw [operations, Table.lookup_put] at hr
    split at hr
    next =>
      cases hr
      rw [kind'] at hkind
      cases hkind
    next =>
      obtain ⟨grant, hg, hs, hid⟩ := hL g op record hr hkind hphase
      rw [grants, Table.lookup_put]
      split
      next heq =>
        rw [heq, found] at hg
        cases hg
        exact ⟨_, rfl, hs, hid⟩
      next => exact ⟨grant, hg, hs, hid⟩

end GrantStep

/-! ### What is counted -/

/-- The operation creates a run from the grant. -/
def creates (sha : Sha256) (grantId : String) (host : Host) (L : Ledger) : Op → Bool
  | .transaction (.consumeGrant id operationId) =>
    id = grantId ∧ L.runs.entries.length < ((ledgerSemantics sha).after host L
      (.transaction (.consumeGrant id operationId))).runs.entries.length
  | _ => false

/-- The operation records the event of a checkpoint of the grant. -/
def records (sha : Sha256) (grantId operationId : String) (host : Host) (L : Ledger) : Op → Bool
  | .transaction (.recordCheckpoint id op reason processState runId attempt grant claim) =>
    (id, op) = (grantId, operationId) ∧ L.events.length < ((ledgerSemantics sha).after host L
      (.transaction (.recordCheckpoint id op reason processState runId attempt grant
        claim))).events.length
  | _ => false

theorem creates_spec {o : Op} (h : creates sha grantId host L o) :
    (∃ grant, L.grants.lookup grantId = some grant ∧ grant.status = .reserved) ∧
      Consumed ((ledgerSemantics sha).after host L o) grantId := by
  unfold creates at h
  split at h
  next id operationId =>
    simp only [Bool.decide_and, Bool.and_eq_true, decide_eq_true_eq, Semantics.after,
      ledgerSemantics, Txn.run] at h ⊢
    obtain ⟨rfl, hgrown⟩ := h
    rcases hrun : L.consumeGrant sha host id operationId with e | ⟨reply, L'⟩
    · rw [hrun] at hgrown
      exact absurd hgrown (lt_irrefl _)
    · obtain ⟨-, grant, hfound, hreserved, hconsumed⟩ := Ledger.consumeGrant_step hrun
      exact ⟨⟨grant, hfound, hreserved⟩, _, hconsumed, rfl⟩
  next => cases h

theorem records_spec {o : Op} (h : records sha grantId operationId host L o) :
    (∃ record, L.operations.lookup (grantId, operationId) = some record ∧
      record.phase = .prepared) ∧
      Recorded ((ledgerSemantics sha).after host L o) (grantId, operationId) := by
  unfold records at h
  split at h
  next id op reason processState runId attempt grant claim =>
    simp only [Bool.decide_and, Bool.and_eq_true, decide_eq_true_eq, Semantics.after,
      ledgerSemantics, Txn.run, Prod.mk.injEq] at h ⊢
    obtain ⟨⟨rfl, rfl⟩, hgrown⟩ := h
    rcases hrun : L.recordCheckpoint sha host id op reason processState runId attempt grant claim
      with e | ⟨reply, L'⟩
    · rw [hrun] at hgrown
      exact absurd hgrown (lt_irrefl _)
    · exact (Ledger.recordCheckpoint_step hrun).2
  next => cases h

/-! ### Whole runs -/

def runsCreated (sha : Sha256) (as : List (Action Command Host)) (grantId : String) : ℕ :=
  World.tally (ledgerSemantics sha) Command.script (creates sha grantId) emptyWorld as

/-- How many events have been recorded for the checkpoint. -/
def checkpointsRecorded (sha : Sha256) (as : List (Action Command Host))
    (grantId operationId : String) : ℕ :=
  World.tally (ledgerSemantics sha) Command.script (records sha grantId operationId) emptyWorld as

/-- At most one run has been created from the grant, and if there is one the grant is consumed. -/
def RunsOnce (grantId : String) (L : Ledger) (n : ℕ) : Prop :=
  PreparedReserved L ∧ (n = 0 ∨ n = 1 ∧ Consumed L grantId)

/-- At most one event has been recorded for the checkpoint, and if there is one it is done. -/
def RecordsOnce (key : String × String) (L : Ledger) (n : ℕ) : Prop :=
  n = 0 ∨ n = 1 ∧ Recorded L key

theorem Consumed.not_reserved (h : Consumed L grantId) {grant : Grant}
    (hg : L.grants.lookup grantId = some grant) : grant.status ≠ .reserved := by
  obtain ⟨_, hg', hs⟩ := h
  cases hg.symm.trans hg'
  rw [hs]
  decide

theorem Recorded.stays {key : String × String} (h : Recorded L key) (hk : DispositionsKept L L') :
    Recorded L' key := by
  obtain ⟨record, hr, hp⟩ := h
  obtain ⟨record', hr', -, -, hfinal⟩ := hk key record hr
  rw [hfinal (by simp only [LifecycleOperation.reply, hp]; decide)] at hr'
  exact ⟨record, hr', hp⟩

theorem runsOnce_after (o : Op) (n : ℕ) (h : RunsOnce grantId L n) :
    RunsOnce grantId ((ledgerSemantics sha).after host L o)
      (n + if creates sha grantId host L o then 1 else 0) := by
  have hstep := Ledger.grantStep_after sha host L o
  obtain ⟨hprepared, hn⟩ := h
  refine ⟨hstep.preparedReserved hprepared, ?_⟩
  split
  next hc =>
    obtain ⟨⟨grant, hg, hs⟩, hconsumed⟩ := creates_spec hc
    rcases hn with rfl | ⟨-, hn⟩
    · exact .inr ⟨rfl, hconsumed⟩
    · exact absurd hs (hn.not_reserved hg)
  next =>
    rcases hn with rfl | ⟨rfl, hn⟩
    · exact .inl rfl
    · exact .inr ⟨rfl, hstep.consumed_stays hn⟩

theorem recordsOnce_after (o : Op) (n : ℕ) (h : RecordsOnce (grantId, operationId) L n) :
    RecordsOnce (grantId, operationId) ((ledgerSemantics sha).after host L o)
      (n + if records sha grantId operationId host L o then 1 else 0) := by
  split
  next hc =>
    obtain ⟨⟨record, hr, hprepared⟩, hrecorded⟩ := records_spec hc
    rcases h with rfl | ⟨-, _, hr', hdone⟩
    · exact .inr ⟨rfl, hrecorded⟩
    · cases hr.symm.trans hr'
      rw [hprepared] at hdone
      cases hdone
  next =>
    rcases h with rfl | ⟨rfl, h⟩
    · exact .inl rfl
    · exact .inr ⟨rfl, h.stays (Ledger.grantStep_after sha host L o).dispositionsKept⟩

theorem runsOnce_run (sha : Sha256) (as : List (Action Command Host)) (grantId : String) :
    RunsOnce grantId (ledgerAfter sha as) (runsCreated sha as grantId) := by
  have hempty : RunsOnce grantId emptyWorld.shared 0 := by
    refine ⟨?_, .inl rfl⟩
    rintro _ _ _ ⟨⟩
  have h : RunsOnce grantId (ledgerAfter sha as) (0 + runsCreated sha as grantId) :=
    World.tally_invariant (fun L o host n => runsOnce_after o n) as hempty
  rwa [Nat.zero_add] at h

theorem recordsOnce_run (sha : Sha256) (as : List (Action Command Host))
    (grantId operationId : String) :
    RecordsOnce (grantId, operationId) (ledgerAfter sha as)
      (checkpointsRecorded sha as grantId operationId) := by
  have hempty : RecordsOnce (grantId, operationId) emptyWorld.shared 0 := .inl rfl
  have h : RecordsOnce (grantId, operationId) (ledgerAfter sha as)
      (0 + checkpointsRecorded sha as grantId operationId) :=
    World.tally_invariant (fun L o host n => recordsOnce_after o n) as hempty
  rwa [Nat.zero_add] at h

theorem dispositionsKept_run (sha : Sha256) (as bs : List (Action Command Host)) :
    DispositionsKept (ledgerAfter sha as) (ledgerAfter sha (as ++ bs)) := by
  unfold ledgerAfter
  rw [World.run_append]
  exact World.run_rel DispositionsKept.refl (fun _ _ _ => DispositionsKept.trans)
    (fun L o host => (Ledger.grantStep_after sha host L o).dispositionsKept) _ bs

/-- However routes, revocations and other commands are interleaved and cut off: a grant creates
at most one run, and none while it is reserved or its claim prepared; what is recorded of an
operation only moves on, and stays once it is known; and a checkpoint is recorded at most once. -/
theorem grants_act_once (sha : Sha256) (as bs : List (Action Command Host)) (grantId : String) :
    runsCreated sha as grantId ≤ 1 ∧
      (∀ grant, (ledgerAfter sha as).grants.lookup grantId = some grant →
        grant.status = .reserved → runsCreated sha as grantId = 0) ∧
      (∀ operationId record,
        (ledgerAfter sha as).operations.lookup (grantId, operationId) = some record →
        record.kind = .claim → record.phase = .prepared → runsCreated sha as grantId = 0) ∧
      DispositionsKept (ledgerAfter sha as) (ledgerAfter sha (as ++ bs)) ∧
      ∀ operationId, checkpointsRecorded sha as grantId operationId ≤ 1 := by
  obtain ⟨prepared, once⟩ := runsOnce_run sha as grantId
  have reserved : ∀ grant, (ledgerAfter sha as).grants.lookup grantId = some grant →
      grant.status = .reserved → runsCreated sha as grantId = 0 := by
    intro grant hg hs
    rcases once with h | ⟨-, hconsumed⟩
    · exact h
    · exact absurd hs (hconsumed.not_reserved hg)
  refine ⟨by omega, reserved, fun operationId record hr hk hp => ?_,
    dispositionsKept_run sha as bs, fun operationId => ?_⟩
  · obtain ⟨grant, hg, hs, -⟩ := prepared grantId operationId record hr hk hp
    exact reserved grant hg hs
  · rcases recordsOnce_run sha as grantId operationId with h | ⟨h, -⟩ <;> omega

end OrchKit
