import OrchKit.Ledger.Inversion
import OrchKit.Lifecycle.Board

/-! # What one atomic operation can do

Every operation is of one of a few kinds: it leaves runs and tasks alone, works on
the queue, starts a run, or moves one. All invariants of the ledger are derived from
this list, so that no later proof unfolds a transaction again.
-/

namespace OrchKit

open Except Program

namespace Ledger

/-- One run has been changed and its task told, and no other run or task has changed. -/
structure Moved (L L' : Ledger) (runId : RunId) (run run' : Run) (status : Option TaskStatus) :
    Prop where
  found : L.runs.lookup runId = some run
  moved : L'.runs.lookup runId = some run'
  runs : ∀ r, r ≠ runId → L'.runs.lookup r = L.runs.lookup r
  taskId : run'.taskId = run.taskId
  attempt : run'.attempt = run.attempt
  claimGitHead : run'.claimGitHead = run.claimGitHead
  attempts : ∀ t, L'.attempts t = L.attempts t
  told : L'.tasks.lookup run.taskId = (L.tasks.lookup run.taskId).map fun task =>
    { task with status := status.getD task.status }
  tasks : ∀ t, t ≠ run.taskId → L'.tasks.lookup t = L.tasks.lookup t
  events : L.events <:+ L'.events

/-- The tables a run's transactions seldom touch are as they were. -/
structure RestKept (L L' : Ledger) : Prop where
  snapshots : L'.snapshots = L.snapshots
  approvals : L'.approvals = L.approvals
  publications : L'.publications = L.publications

theorem attempts_modify {L L' : Ledger} {runId : RunId} {f : Run → Run}
    (h : L'.runs = L.runs.modify runId f) (hf : ∀ run, (f run).taskId = run.taskId) (t : TaskId) :
    L'.attempts t = L.attempts t := by
  rw [attempts, h, Table.count_modify (fun run _ => by rw [hf]), attempts]

theorem moved_of_modify {L L' : Ledger} {runId : RunId} {run : Run} {f : Run → Run}
    {status : TaskStatus} (found : L.runs.lookup runId = some run)
    (runs : L'.runs = L.runs.modify runId f)
    (tasks : L'.tasks = L.tasks.modify run.taskId fun task => { task with status := status })
    (events : L.events <:+ L'.events) (hf : ∀ run, (f run).taskId = run.taskId)
    (ha : (f run).attempt = run.attempt) (hh : (f run).claimGitHead = run.claimGitHead) :
    Moved L L' runId run (f run) (some status) where
  found := found
  moved := by rw [runs, Table.lookup_modify, if_pos rfl, found, Option.map_some]
  runs := fun r hr => by rw [runs, Table.lookup_modify, if_neg hr]
  taskId := hf run
  attempt := ha
  claimGitHead := hh
  attempts := attempts_modify runs hf
  told := by rw [tasks, Table.lookup_modify, if_pos rfl]; rfl
  tasks := fun t ht => by rw [tasks, Table.lookup_modify, if_neg ht]
  events := events

theorem moved_update {L : Ledger} {runId : RunId} {run : Run} {f : Run → Run}
    {status : TaskStatus} {kind : EventKind} {t : Option TaskId} {r : Option RunId}
    (found : L.runs.lookup runId = some run) (hf : ∀ run, (f run).taskId = run.taskId)
    (ha : (f run).attempt = run.attempt) (hh : (f run).claimGitHead = run.claimGitHead) :
    Moved L (((L.updateRun runId f).setStatus run.taskId status).record kind t r) runId run (f run)
      (some status) :=
  moved_of_modify found rfl rfl (List.suffix_cons _ _) hf ha hh

/-- A run is updated and an event recorded. -/
theorem moved_updateRun {L : Ledger} {runId : RunId} {run : Run} {f : Run → Run}
    {kind : EventKind} {t : Option TaskId} {r : Option RunId}
    (found : L.runs.lookup runId = some run) (hf : ∀ run, (f run).taskId = run.taskId)
    (ha : (f run).attempt = run.attempt) (hh : (f run).claimGitHead = run.claimGitHead) :
    Moved L ((L.updateRun runId f).record kind t r) runId run (f run) none where
  found := found
  moved := by simp only [record_runs, updateRun_runs, Table.lookup_modify, if_pos, found,
    Option.map_some]
  runs := fun r hr => by simp only [record_runs, updateRun_runs, Table.lookup_modify, if_neg hr]
  taskId := hf run
  attempt := ha
  claimGitHead := hh
  attempts := attempts_modify rfl hf
  told := by simp
  tasks := fun t _ => rfl
  events := List.suffix_cons _ _

theorem moved_of_setStatus {L L' : Ledger} {runId : RunId} {run : Run} {status : TaskStatus}
    (found : L.runs.lookup runId = some run) (runs : L'.runs = L.runs)
    (tasks : L'.tasks = L.tasks.modify run.taskId fun task => { task with status := status })
    (events : L.events <:+ L'.events) : Moved L L' runId run run (some status) where
  found := found
  moved := by rw [runs, found]
  runs := fun r _ => by rw [runs]
  taskId := rfl
  attempt := rfl
  claimGitHead := rfl
  attempts := fun t => by rw [attempts, runs, attempts]
  told := by rw [tasks, Table.lookup_modify, if_pos rfl]; rfl
  tasks := fun t ht => by rw [tasks, Table.lookup_modify, if_neg ht]
  events := events

/-- The states in which a run has a snapshot that passed verification. -/
def gatedRunStates : List RunState := [.reviewing, .verified, .complete]

end Ledger

open Ledger

/-- What an operation may turn a ledger into. -/
inductive Effect (sha : Sha256) (L : Ledger) : Op → Ledger → Prop
  | quiet {o : Op} {L' : Ledger} (tasks : L'.tasks = L.tasks) (kept : RunsKept L L') :
      Effect sha L o L'
  | queued {t : Txn} {L' : Ledger}
      (tasks : ∀ id, TaskStep (L.tasks.lookup id) (L'.tasks.lookup id)) (kept : RunsKept L L') :
      Effect sha L (.transaction t) L'
  | started {t : Txn} {L' : Ledger} {runId : RunId} {run : Run} {task : Task}
      (started : Started L L' runId run task) : Effect sha L (.transaction t) L'
  | moved {t : Txn} {L' : Ledger} {runId : RunId} {run run' : Run} {status : Option TaskStatus}
      (moved : Moved L L' runId run run' status) (move : Move run.state run'.state status)
      (snapshotId : run'.snapshotId = run.snapshotId) (open_ : run'.state ∉ gatedRunStates)
      (kept : RestKept L L') : Effect sha L (.transaction t) L'
  | accepted {t : Txn} {L' : Ledger} {runId : RunId} {run run' : Run}
      (moved : Moved L L' runId run run' (some .readyToPublish)) (state : run.state = .reviewing)
      (state' : run'.state = .verified) (snapshotId : run'.snapshotId = run.snapshotId)
      (imported : ∃ hash bytes,
        (⟨.reviewImported .pass run.snapshotId hash bytes, some run.taskId, some runId⟩ : Event) ∈
          L'.events) (kept : RestKept L L') : Effect sha L (.transaction t) L'
  | completed {t : Txn} {L' : Ledger} {runId : RunId} {run run' : Run} {task : Task}
      (moved : Moved L L' runId run run' (some .done)) (state : run.state = .verified)
      (state' : run'.state = .complete) (snapshotId : run'.snapshotId = run.snapshotId)
      (found : L.tasks.lookup run.taskId = some task)
      (kind : task.payload.publication.kind = .none)
      (approved : task.payload.ownerAcceptance → L.approved runId run) (kept : RestKept L L') :
      Effect sha L (.transaction t) L'
  | waiting {t : Txn} {L' : Ledger} {runId : RunId} {run : Run}
      (moved : Moved L L' runId run run (some .waitingOwner)) (state : run.state = .verified)
      (kept : RestKept L L') : Effect sha L (.transaction t) L'
  | approved {t : Txn} {L' : Ledger} {runId : RunId} {run : Run} {snapshotId : SnapshotId}
      {note : String} (moved : Moved L L' runId run run (some .readyToPublish))
      (state : run.state = .verified) (found : run.snapshotId = some snapshotId)
      (snapshots : L'.snapshots = L.snapshots)
      (approvals : L'.approvals = L.approvals.put runId ⟨snapshotId, note⟩)
      (publications : L'.publications = L.publications) : Effect sha L (.transaction t) L'
  | result {runId : RunId} {run : Run} {payload : TaskPayload} {manifest : Manifest}
      {checks : List CheckResult} {reply : Reply} {L' : Ledger}
      (h : L.verifyResult sha runId run payload manifest checks = .ok (reply, L')) :
      Effect sha L (.transaction (.verifyResult runId run payload manifest checks)) L'
  | unclaimed {runId : RunId} {taskId : TaskId} {failure : String} {reply : Reply} {L' : Ledger}
      (h : L.capabilityCreateFailed runId taskId failure = .ok (reply, L')) :
      Effect sha L (.transaction (.capabilityCreateFailed runId taskId failure)) L'
  | finalized {runId : RunId} {taskId : TaskId} {commitId : CommitId}
      {remoteCommit : Option CommitId} {kind : PublicationKind} {seen : Option Publication}
      {reply : Reply} {L' : Ledger}
      (h : L.finalizePublication runId taskId commitId remoteCommit kind = .ok (reply, L')) :
      Effect sha L
        (.transaction (.finalizePublication runId taskId commitId remoteCommit kind seen)) L'
  | deleted (runId : RunId) (seen : Option Publication) :
      Effect sha L (.deletePublication runId seen)
        { L with publications := L.publications.delete runId }
  | inserted (runId : RunId) (row : Publication) (seen : Option Publication)
      (fresh : L.publications.lookup runId = none) :
      Effect sha L (.insertPublication runId row seen)
        { L with publications := L.publications.put runId row }
  | updated (runId : RunId) (patch : PublicationPatch) (seen : Option Publication) :
      Effect sha L (.updatePublication runId patch seen)
        { L with publications := L.publications.modify runId patch.apply }

namespace Effect

variable {sha : Sha256} {host : Host} {L L' : Ledger} {reply : Reply}

theorem refl (o : Op) : Effect sha L o L := .quiet rfl (RunsKept.refl L)

theorem aside {t : Txn} (tasks : L'.tasks = L.tasks) (runs : L'.runs = L.runs)
    (snapshots : L'.snapshots = L.snapshots) (approvals : L'.approvals = L.approvals)
    (publications : L'.publications = L.publications) (events : L.events <:+ L'.events) :
    Effect sha L (.transaction t) L' :=
      .quiet tasks ⟨runs, snapshots, approvals, publications, events⟩

theorem insertTasks_spec (revision : String) (ordinal nextQueue : ℕ) (payloads : List TaskPayload)
    (L : Ledger) :
    RunsKept L (insertTasks revision ordinal nextQueue payloads L).1 ∧ ∀ id,
      (insertTasks revision ordinal nextQueue payloads L).1.tasks.lookup id = L.tasks.lookup id ∨
        (L.tasks.lookup id = none ∧ ∃ task,
          (insertTasks revision ordinal nextQueue payloads L).1.tasks.lookup id = some task ∧
            task.status = .planned) := by
  induction payloads generalizing ordinal nextQueue L with
  | nil => exact ⟨RunsKept.refl L, fun id => .inl rfl⟩
  | cons payload payloads ih =>
    rw [insertTasks]
    split
    next => exact ih ..
    next h =>
      simp only
      obtain ⟨hk, ht⟩ := ih (ordinal + 1) (nextQueue + 1) { L with
        tasks := L.tasks.put payload.id ⟨revision, ordinal, nextQueue + 1, .planned, payload⟩ }
      refine ⟨⟨hk.runs, hk.snapshots, hk.approvals, hk.publications, hk.events⟩, fun id => ?_⟩
      specialize ht id
      simp only [Table.lookup_put] at ht
      split at ht
      next hid =>
        subst hid
        rcases ht with ht | ⟨ht, -⟩
        · exact .inr ⟨h, _, ht, rfl⟩
        · cases ht
      next => exact ht

theorem loadPlan {t : Txn} {revision : String} {digest : Hash} {tasks : List TaskPayload}
    (h : L.loadPlan revision digest tasks = .ok (reply, L')) :
    Effect sha L (.transaction t) L' := by
  simp only [Ledger.loadPlan, bind_eq_ok_iff, pure_eq_ok_iff, Prod.mk.injEq] at h
  obtain ⟨-, -, -, -, -, -, -, rfl⟩ := h
  obtain ⟨hk, ht⟩ := insertTasks_spec revision 0 L.maxQueueSeq tasks { L with
    plans := if (L.plans.lookup revision).isSome then L.plans else L.plans.put revision digest }
  refine .queued (fun id => ?_) ⟨hk.runs, hk.snapshots, hk.approvals, hk.publications,
    hk.events.trans (List.suffix_cons _ _)⟩
  rcases ht id with ht | ⟨h, task, ht, hs⟩
  · exact ht ▸ .same _
  · exact ht ▸ h ▸ .planned hs

theorem cancelTask {t : Txn} {taskId : TaskId} {reason : String}
    (h : L.cancelTask taskId reason = .ok (reply, L')) : Effect sha L (.transaction t) L' := by
  simp only [Ledger.cancelTask, bind_eq_ok_iff, require_eq_ok_iff, ofOption_eq_ok_iff] at h
  obtain ⟨-, -, -, -, task, htask, h⟩ := h
  split at h
  next => cases h; exact refl _
  next =>
    simp only [bind_eq_ok_iff, require_eq_ok_iff, pure_eq_ok_iff, Prod.mk.injEq] at h
    obtain ⟨-, -, -, hstatus, -, rfl⟩ := h
    refine .queued (fun id => ?_) ⟨rfl, rfl, rfl, rfl, List.suffix_cons _ _⟩
    simp only [record_tasks, setStatus_tasks, Table.lookup_modify]
    split
    next hid => rw [hid, htask]; exact .cancelled hstatus
    next => exact .same _

theorem claim {t : Txn} (h : Claimed L host reply L') : Effect sha L (.transaction t) L' := by
  rcases h with ⟨h, -⟩ | ⟨runId, run, task, h, -⟩
  · exact .queued h.taskStep h.toRunsKept
  · exact .started h

theorem readmit {t : Txn} {previousRunId dependencyRunId : RunId} {revision : String}
    {digest : Hash} {task : TaskPayload}
    (h : L.readmit sha host previousRunId dependencyRunId revision digest task = .ok (reply, L')) :
    Effect sha L (.transaction t) L' := by
  unfold Ledger.readmit at h
  simp only at h
  split at h
  next =>
    simp only [bind_eq_ok_iff, pure_eq_ok_iff, Prod.mk.injEq] at h
    obtain ⟨-, -, -, rfl⟩ := h
    exact refl _
  next =>
    simp only [bind_eq_ok_iff, require_eq_ok_iff, pure_eq_ok_iff, Prod.mk.injEq] at h
    obtain ⟨-, hnew, proof, hguard, _, -, _, -, -, -, -, rfl⟩ := h
    obtain ⟨old, hold, hstatus⟩ := readmissionGuard_previous hguard
    refine .queued (fun id => ?_) ⟨rfl, rfl, rfl, rfl, ?_⟩
    · simp only [record_tasks, setStatus_tasks, Table.lookup_modify, Table.lookup_put]
      by_cases hp : id = proof.previousTaskId
      · subst hp
        have hne : proof.previousTaskId ≠ task.id := by
          rintro hid
          rw [hid, hnew.2] at hold
          cases hold
        rw [if_pos rfl, if_neg hne, hold]
        exact .cancelled hstatus
      · rw [if_neg hp]
        split
        next hid => rw [hid, hnew.2]; exact .planned rfl
        next => exact .same _
    · exact (List.suffix_cons _ _).trans (List.suffix_cons _ _)

theorem checkpoint {t : Txn} {runId : RunId} {leaseToken reason : String}
    (h : L.checkpoint runId leaseToken reason = .ok (reply, L')) :
    Effect sha L (.transaction t) L' := by
  simp only [Ledger.checkpoint, bind_eq_ok_iff, pure_eq_ok_iff, Prod.mk.injEq] at h
  obtain ⟨-, -, -, -, -, rfl⟩ := h
  exact aside rfl rfl rfl rfl rfl (List.suffix_cons _ _)

theorem leasedRun_spec {runId : RunId} {leaseToken refusal : String} {state : RunState} {run : Run}
    (h : L.leasedRun runId leaseToken state refusal = .ok run) :
    L.runs.lookup runId = some run ∧ run.leaseToken = leaseToken ∧ run.state = state := by
  simp only [leasedRun, bind_eq_ok_iff, ofOption_eq_ok_iff, require_eq_ok_iff, pure_eq_ok_iff] at h
  obtain ⟨run, hrun, -, hlease, -, hstate, rfl⟩ := h
  exact ⟨hrun, hlease, hstate⟩

theorem submit {t : Txn} {runId : RunId} {leaseToken : String} {receipt : Receipt} {hash : Hash}
    {bytes : ℕ} (h : L.submit host runId leaseToken receipt hash bytes = .ok (reply, L')) :
    Effect sha L (.transaction t) L' := by
  simp only [Ledger.submit, bind_eq_ok_iff, pure_eq_ok_iff, Prod.mk.injEq] at h
  obtain ⟨run, hrun, -, -, -, -, -, -, -, -, -, -, -, rfl⟩ := h
  obtain ⟨hfound, -, hstate⟩ := leasedRun_spec hrun
  refine .moved (moved_updateRun hfound (fun _ => rfl) rfl rfl) ?_
    rfl (by simp [gatedRunStates]) ⟨rfl, rfl, rfl⟩
  rw [hstate]
  exact .submit

theorem quiesce {t : Txn} {runId : RunId} {leaseToken : String}
    (h : L.quiesce host runId leaseToken = .ok (reply, L')) : Effect sha L (.transaction t) L' := by
  simp only [Ledger.quiesce, bind_eq_ok_iff, pure_eq_ok_iff, Prod.mk.injEq] at h
  obtain ⟨run, hrun, -, -, -, rfl⟩ := h
  obtain ⟨hfound, -, hstate⟩ := leasedRun_spec hrun
  refine .moved (moved_updateRun hfound (fun _ => rfl) rfl rfl) ?_
    rfl (by simp [gatedRunStates]) ⟨rfl, rfl, rfl⟩
  rw [hstate]
  exact .quiesce

theorem blockVerification {t : Txn} {runId : RunId} {reason : String}
    (h : L.blockVerification runId reason = .ok (reply, L')) :
    Effect sha L (.transaction t) L' := by
  simp only [Ledger.blockVerification, bind_eq_ok_iff, ofOption_eq_ok_iff, require_eq_ok_iff,
    pure_eq_ok_iff, Prod.mk.injEq] at h
  obtain ⟨run, hfound, -, hstate, -, rfl⟩ := h
  refine .moved (moved_update hfound (fun _ => rfl) rfl rfl) ?_
    rfl (by simp [gatedRunStates]) ⟨rfl, rfl, rfl⟩
  rw [hstate]
  exact .block

theorem importReview {t : Txn} {runId : RunId} {report : ReviewReport} {hash : Hash} {bytes : ℕ}
    (h : L.importReview runId report hash bytes = .ok (reply, L')) :
    Effect sha L (.transaction t) L' := by
  simp only [Ledger.importReview, bind_eq_ok_iff, ofOption_eq_ok_iff, require_eq_ok_iff] at h
  obtain ⟨run, hfound, -, hstate, -, -, h⟩ := h
  split at h
  next hpass =>
    cases h
    refine .accepted (moved_update hfound (fun _ => rfl) rfl rfl)
      hstate rfl rfl ⟨hash, bytes, ?_⟩ ⟨rfl, rfl, rfl⟩
    rw [record_events, hpass]
    exact List.mem_cons_self
  next =>
    cases h
    split
    next =>
      refine .moved (moved_update hfound (fun _ => rfl) rfl rfl) ?_
        rfl (by simp [gatedRunStates]) ⟨rfl, rfl, rfl⟩
      rw [hstate]
      exact .reject
    next =>
      refine .moved (moved_update hfound (fun _ => rfl) rfl rfl) ?_
        rfl (by simp [gatedRunStates]) ⟨rfl, rfl, rfl⟩
      rw [hstate]
      exact .rejectBlocked

theorem complete {t : Txn} {runId : RunId} (h : L.complete host runId = .ok (reply, L')) :
    Effect sha L (.transaction t) L' := by
  simp only [Ledger.complete, bind_eq_ok_iff, ofOption_eq_ok_iff, require_eq_ok_iff] at h
  obtain ⟨run, hfound, -, hstate, task, htask, -, -, h⟩ := h
  split at h
  next =>
    cases h
    exact .waiting (moved_of_setStatus hfound rfl rfl (List.suffix_refl _)) hstate ⟨rfl, rfl, rfl⟩
  next howner =>
    split at h
    next => cases h; exact refl _
    next hkind =>
      cases h
      refine .completed (moved_update hfound (fun _ => rfl) rfl rfl)
        hstate rfl rfl htask (not_not.mp hkind) (fun ho => ?_) ⟨rfl, rfl, rfl⟩
      rw [not_and, not_not] at howner
      exact howner ho

theorem approve {t : Txn} {runId : RunId} {note : String}
    (h : L.approve host runId note = .ok (reply, L')) : Effect sha L (.transaction t) L' := by
  simp only [Ledger.approve, bind_eq_ok_iff, ofOption_eq_ok_iff, require_eq_ok_iff,
    pure_eq_ok_iff, Prod.mk.injEq] at h
  obtain ⟨run, hfound, -, hstate, snapshotId, hsnap, task, htask, -, -, -, -, -, rfl⟩ := h
  exact .approved (moved_of_setStatus hfound rfl rfl (List.suffix_cons _ _)) hstate hsnap rfl rfl
    rfl

theorem abort {t : Txn} {runId : RunId} {reason : String} {retry confirmed : Bool}
    (h : L.abort host runId reason retry confirmed = .ok (reply, L')) :
    Effect sha L (.transaction t) L' := by
  simp only [Ledger.abort, bind_eq_ok_iff, ofOption_eq_ok_iff, require_eq_ok_iff, pure_eq_ok_iff,
    Prod.mk.injEq] at h
  obtain ⟨run, hfound, -, hstate, -, -, -, -, -, rfl⟩ := h
  cases retry with
  | false =>
    exact .moved (moved_update hfound (fun _ => rfl) rfl rfl)
      (.abort hstate) rfl (by simp [gatedRunStates]) ⟨rfl, rfl, rfl⟩
  | true =>
    exact .moved (moved_update hfound (fun _ => rfl) rfl rfl)
      (.abortRetry hstate) rfl (by simp [gatedRunStates]) ⟨rfl, rfl, rfl⟩

theorem grant {t : Txn} {grants : Table String Grant}
    {operations : Table (String × String) LifecycleOperation} :
    Effect sha L (.transaction t) { L with grants := grants, operations := operations } :=
  aside rfl rfl rfl rfl rfl (List.suffix_refl _)

theorem transaction {t : Txn} (h : t.run sha host L = .ok (reply, L')) :
    Effect sha L (.transaction t) L' := by
  cases t with
  | loadPlan => exact loadPlan h
  | readmit => exact readmit h
  | pauseProject projectId reason =>
    simp only [Txn.run, Ledger.pauseProject, bind_eq_ok_iff, pure_eq_ok_iff, Prod.mk.injEq] at h
    obtain ⟨-, -, -, -, -, -, -, rfl⟩ := h
    exact aside rfl rfl rfl rfl rfl (List.suffix_cons _ _)
  | resumeProject projectId =>
    simp only [Txn.run, Ledger.resumeProject, bind_eq_ok_iff] at h
    obtain ⟨-, -, h⟩ := h
    split at h <;> cases h
    · exact refl _
    · exact aside rfl rfl rfl rfl rfl (List.suffix_cons _ _)
  | recordProjectRemoved projectId =>
    simp only [Txn.run, Ledger.recordProjectRemoved, bind_eq_ok_iff, pure_eq_ok_iff,
      Prod.mk.injEq] at h
    obtain ⟨-, -, -, rfl⟩ := h
    exact aside rfl rfl rfl rfl rfl (List.suffix_cons _ _)
  | cancelTask => exact cancelTask h
  | claim => exact claim (claim_spec h)
  | capabilityCreateFailed => exact .unclaimed h
  | createGrant =>
    simp only [Txn.run, Ledger.createGrant, bind_eq_ok_iff, pure_eq_ok_iff, Prod.mk.injEq] at h
    obtain ⟨-, -, -, -, -, -, -, -, -, rfl⟩ := h
    exact grant
  | revokeGrant =>
    simp only [Txn.run, Ledger.revokeGrant, bind_eq_ok_iff, pure_eq_ok_iff, Prod.mk.injEq] at h
    obtain ⟨-, -, -, -, -, -, -, -, -, rfl⟩ := h
    exact grant
  | reserveGrant =>
    simp only [Txn.run, Ledger.reserveGrant, bind_eq_ok_iff] at h
    obtain ⟨_, -, previous, -, h⟩ := h
    split at h
    · split at h
      · cases h
        exact refl _
      · split at h <;> cases h <;> exact refl _
    · split at h <;> cases h
      · exact refl _
      · exact grant
  | consumeGrant =>
    rcases consumeGrant_spec h with ⟨ht, hk⟩ | ⟨_, _, _, hs⟩
    · exact .quiet ht hk
    · exact .started hs
  | readyGrant =>
    simp only [Txn.run, Ledger.readyGrant, bind_eq_ok_iff, pure_eq_ok_iff, Prod.mk.injEq] at h
    obtain ⟨-, -, -, -, -, -, -, -, -, rfl⟩ := h
    exact grant
  | recordCheckpoint =>
    simp only [Txn.run, Ledger.recordCheckpoint, bind_eq_ok_iff, pure_eq_ok_iff,
      Prod.mk.injEq] at h
    obtain ⟨-, -, -, -, -, -, -, -, -, -, -, -, -, rfl⟩ := h
    exact aside rfl rfl rfl rfl rfl (List.suffix_cons _ _)
  | checkpoint => exact checkpoint h
  | submit => exact submit h
  | quiesce => exact quiesce h
  | blockVerification => exact blockVerification h
  | verifyResult => exact .result h
  | importReview => exact importReview h
  | complete => exact complete h
  | approve => exact approve h
  | abort => exact abort h
  | finalizePublication => exact .finalized h

theorem prepareCheckpoint {o : Op} {grantId operationId reason processState : String}
    {runId : RunId} {attempt : ℕ} {start : CheckpointStart}
    (h : L.prepareCheckpoint sha host grantId
      operationId reason processState runId attempt = .ok (start, L')) : Effect sha L o L' := by
  simp only [Ledger.prepareCheckpoint, bind_eq_ok_iff] at h
  obtain ⟨grant, -, claim, -, -, -, previous, -, h⟩ := h
  split at h
  · repeat' split at h
    all_goals cases h
    all_goals exact refl _
  · split at h
    · cases h
      exact refl _
    · split at h <;> cases h
      · exact refl _
      · exact .quiet rfl ⟨rfl, rfl, rfl, rfl, List.suffix_refl _⟩

/-- Every atomic operation is of one of the kinds of `Effect`. -/
theorem after (sha : Sha256) (host : Host) (L : Ledger) (o : Op) :
    Effect sha L o ((ledgerSemantics sha).after host L o) := by
  cases o with
  | deletePublication runId seen => exact .deleted runId seen
  | insertPublication runId row seen =>
    simp only [Semantics.after, ledgerSemantics]
    split
    next h => exact .inserted runId row seen h
    next => exact refl _
  | updatePublication runId patch seen => exact .updated runId patch seen
  | setPaused details => exact .quiet rfl ⟨rfl, rfl, rfl, rfl, List.suffix_refl _⟩
  | insertEvent kind => exact .quiet rfl ⟨rfl, rfl, rfl, rfl, List.suffix_cons _ _⟩
  | prepareCheckpoint =>
    simp only [Semantics.after, ledgerSemantics]
    split
    next h => exact prepareCheckpoint h
    next => exact refl _
  | transaction t =>
    simp only [Semantics.after, ledgerSemantics]
    rcases h : t.run sha host L with e | ⟨reply, L'⟩
    · exact refl _
    · exact transaction h
  | _ => exact refl _

end Effect

end OrchKit
