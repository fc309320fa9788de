import OrchKit.Ledger.Effects

/-! # What every operation keeps

The three transactions that do not look at what they write, described by what they
write, and the facts no operation can change: a task stays under the payload it was
admitted with, a run stays with its task and its attempt, and its task is there.
-/

namespace OrchKit

open Except Program

namespace Ledger

/-! ### Blind writes -/

/-- A run is rewritten and a task is told, whatever they are. -/
structure Rewrote (L L' : Ledger) (runId : RunId) (f : Run → Run) (taskId : TaskId)
    (status : TaskStatus) : Prop where
  runs : L'.runs = L.runs.modify runId f
  tasks : L'.tasks = L.tasks.modify taskId fun task => { task with status := status }
  taskId : ∀ run, (f run).taskId = run.taskId
  attempt : ∀ run, (f run).attempt = run.attempt
  claimGitHead : ∀ run, (f run).claimGitHead = run.claimGitHead
  approvals : L'.approvals = L.approvals
  events : L.events <:+ L'.events

/-- What the last transaction of `verify` makes of the run, the task and the journal. -/
inductive Outcome (payload : TaskPayload) (manifest : Manifest) (attempt : ℕ)
    (checks : List CheckResult) (snapshotId : SnapshotId) :
    (Run → Run) → TaskStatus → EventKind → Prop
  | review {d : ReviewDecision} (passed : checks.all CheckResult.passed)
      (decided : decision payload manifest attempt = .ok d) (required : d.required) :
      Outcome payload manifest attempt checks snapshotId
        (fun run => { run with
          state := .reviewing, snapshotId := some snapshotId, verifyStatus := some .pass })
        .waitingReview (.verifyPass snapshotId d)
  | verified {d : ReviewDecision} (passed : checks.all CheckResult.passed)
      (decided : decision payload manifest attempt = .ok d) (required : ¬ d.required) :
      Outcome payload manifest attempt checks snapshotId
        (fun run => { run with
          state := .verified, snapshotId := some snapshotId, verifyStatus := some .pass })
        .readyToPublish (.verifyPass snapshotId d)
  | failed (passed : ¬ checks.all CheckResult.passed) :
      Outcome payload manifest attempt checks snapshotId
        (fun run => { run with
          state := .needsFix, snapshotId := some snapshotId, verifyStatus := some .fail,
          feedback := some (.verificationFailure checks snapshotId) })
        .needsFix (.verifyFail snapshotId checks)

section Blind

variable {L L' : Ledger} {sha : Sha256} {runId : RunId} {reply : Reply}

theorem verifyResult_spec {run : Run} {payload : TaskPayload} {manifest : Manifest}
    {checks : List CheckResult}
    (h : L.verifyResult sha runId run payload manifest checks = .ok (reply, L')) :
    ∃ f status kind,
      Outcome payload manifest run.attempt checks (sha.snapshotId manifest) f status kind ∧
        Rewrote L L' runId f run.taskId status ∧
        L'.snapshots = L.snapshots.put (sha.snapshotId manifest) ⟨runId, manifest⟩ ∧
        L'.publications = L.publications ∧
        L'.events = ⟨kind, some run.taskId, some runId⟩ :: L.events := by
  rw [verifyResult] at h
  simp only at h
  split at h
  next hpassed =>
    split at h
    next => cases h
    next d hd =>
      cases h
      by_cases hreq : d.required
      · refine ⟨_, _, _, .review hpassed hd hreq, ?_, rfl, rfl, rfl⟩
        simp only [hreq, if_true]
        exact ⟨rfl, rfl, fun _ => rfl, fun _ => rfl, fun _ => rfl, rfl, List.suffix_cons _ _⟩
      · refine ⟨_, _, _, .verified hpassed hd hreq, ?_, rfl, rfl, rfl⟩
        simp only [hreq]
        exact ⟨rfl, rfl, fun _ => rfl, fun _ => rfl, fun _ => rfl, rfl, List.suffix_cons _ _⟩
  next hpassed =>
    cases h
    exact ⟨_, _, _, .failed hpassed, ⟨rfl, rfl, fun _ => rfl, fun _ => rfl, fun _ => rfl, rfl,
      List.suffix_cons _ _⟩, rfl, rfl, rfl⟩

theorem capabilityCreateFailed_spec {taskId : TaskId} {failure : String}
    (h : L.capabilityCreateFailed runId taskId failure = .ok (reply, L')) :
    Rewrote L L' runId (fun run => { run with state := .aborted, error := failure }) taskId
        .blocked ∧ L'.snapshots = L.snapshots ∧ L'.publications = L.publications := by
  cases h
  exact ⟨⟨rfl, rfl, fun _ => rfl, fun _ => rfl, fun _ => rfl, rfl, List.suffix_cons _ _⟩, rfl, rfl⟩

theorem finalizePublication_spec {taskId : TaskId} {commitId : CommitId}
    {remoteCommit : Option CommitId} {kind : PublicationKind}
    (h : L.finalizePublication runId taskId commitId remoteCommit kind = .ok (reply, L')) :
    Rewrote L L' runId (fun run => { run with state := .complete }) taskId .done ∧
      L'.snapshots = L.snapshots ∧
      L'.publications = L.publications.modify runId fun row => { row with
        status := .complete, commitId := some commitId, remoteCommit := remoteCommit,
        error := none } := by
  cases h
  exact ⟨⟨rfl, rfl, fun _ => rfl, fun _ => rfl, fun _ => rfl, rfl, List.suffix_cons _ _⟩, rfl, rfl⟩

end Blind

/-! ### What stays -/

/-- Tasks stay, under the payload they were admitted with. -/
def TasksKept (L L' : Ledger) : Prop :=
  ∀ id task, L.tasks.lookup id = some task →
    ∃ task', L'.tasks.lookup id = some task' ∧ task'.payload = task.payload

def RunsStay (L L' : Ledger) : Prop :=
  ∀ r run, L.runs.lookup r = some run →
    ∃ run', L'.runs.lookup r = some run' ∧ run'.taskId = run.taskId ∧ run'.attempt = run.attempt

def NoneNew (L L' : Ledger) : Prop :=
  ∀ r, L.runs.lookup r = none → L'.runs.lookup r = none

def TasksKnown (L : Ledger) : Prop :=
  ∀ r run, L.runs.lookup r = some run → ∃ task, L.tasks.lookup run.taskId = some task

section Kept

variable {L L' : Ledger} {runId : RunId} {run run' : Run} {status : Option TaskStatus}

theorem tasksKept_of_eq (h : L'.tasks = L.tasks) : TasksKept L L' :=
  fun _ task ht => ⟨task, h ▸ ht, rfl⟩

theorem tasksKept_of_step (h : ∀ id, TaskStep (L.tasks.lookup id) (L'.tasks.lookup id)) :
    TasksKept L L' :=
  fun id _ ht => (h id).payload ht

theorem runsStay_of_eq (h : L'.runs = L.runs) : RunsStay L L' :=
  fun _ run hr => ⟨run, h ▸ hr, rfl, rfl⟩

theorem noneNew_of_eq (h : L'.runs = L.runs) : NoneNew L L' := fun _ hr => h ▸ hr

theorem TasksKept.payload (h : TasksKept L L') {id : TaskId} {task task' : Task}
    (ht : L.tasks.lookup id = some task) (ht' : L'.tasks.lookup id = some task') :
    task'.payload = task.payload := by
  obtain ⟨task'', ht'', hp⟩ := h id task ht
  rw [ht'] at ht''
  cases ht''
  exact hp

theorem RunsStay.taskId (h : RunsStay L L') {r : RunId} (hr : L.runs.lookup r = some run)
    (hr' : L'.runs.lookup r = some run') : run'.taskId = run.taskId := by
  obtain ⟨run'', hr'', hid, -⟩ := h r run hr
  rw [hr'] at hr''
  cases hr''
  exact hid

theorem NoneNew.exists (h : NoneNew L L') {r : RunId} (hr : L'.runs.lookup r = some run') :
    ∃ run, L.runs.lookup r = some run := by
  rw [← Option.isSome_iff_exists, Option.isSome_iff_ne_none]
  intro hn
  rw [h r hn] at hr
  cases hr

theorem Moved.tasksKept (h : Moved L L' runId run run' status) : TasksKept L L' := by
  intro id task ht
  by_cases hid : id = run.taskId
  · subst hid
    rw [h.told, ht]
    exact ⟨_, rfl, rfl⟩
  · exact ⟨task, (h.tasks id hid).trans ht, rfl⟩

theorem Moved.runsStay (h : Moved L L' runId run run' status) : RunsStay L L' := by
  intro r row hr
  by_cases hid : r = runId
  · subst hid
    rw [h.found] at hr
    cases hr
    exact ⟨run', h.moved, h.taskId, h.attempt⟩
  · exact ⟨row, (h.runs r hid).trans hr, rfl, rfl⟩

theorem Moved.noneNew (h : Moved L L' runId run run' status) : NoneNew L L' := by
  intro r hr
  by_cases hid : r = runId
  · subst hid
    rw [h.found] at hr
    cases hr
  · exact (h.runs r hid).trans hr

theorem Started.tasksKept {task : Task} (h : Started L L' runId run task) : TasksKept L L' := by
  intro id row ht
  by_cases hid : id = run.taskId
  · subst hid
    rw [h.claimable.found] at ht
    cases ht
    exact ⟨_, h.started, rfl⟩
  · exact (h.others id hid).payload ht

theorem Started.lookup_self {task : Task} (h : Started L L' runId run task) :
    L'.runs.lookup runId = some run := by
  rw [h.runs, Table.lookup_put, if_pos rfl]

theorem Started.lookup_ne {task : Task} (h : Started L L' runId run task) {r : RunId}
    (hr : r ≠ runId) : L'.runs.lookup r = L.runs.lookup r := by
  rw [h.runs, Table.lookup_put, if_neg hr]

theorem Started.runsStay {task : Task} (h : Started L L' runId run task) : RunsStay L L' := by
  intro r row hr
  by_cases hid : r = runId
  · subst hid
    rw [h.fresh] at hr
    cases hr
  · exact ⟨row, (h.lookup_ne hid).trans hr, rfl, rfl⟩

variable {f : Run → Run} {taskId : TaskId} {told : TaskStatus}

theorem Rewrote.tasksKept (h : Rewrote L L' runId f taskId told) : TasksKept L L' := by
  intro id task ht
  rw [h.tasks, Table.lookup_modify, ht]
  split <;> exact ⟨_, rfl, rfl⟩

theorem Rewrote.runsStay (h : Rewrote L L' runId f taskId told) : RunsStay L L' := by
  intro r run hr
  rw [h.runs, Table.lookup_modify]
  split
  next => exact ⟨f run, by rw [hr]; rfl, h.taskId run, h.attempt run⟩
  next => exact ⟨run, hr, rfl, rfl⟩

theorem Rewrote.noneNew (h : Rewrote L L' runId f taskId told) : NoneNew L L' := by
  intro r hr
  rw [h.runs, Table.lookup_modify, hr]
  split <;> rfl

theorem Rewrote.lookup_ne (h : Rewrote L L' runId f taskId told) {r : RunId} (hr : r ≠ runId) :
    L'.runs.lookup r = L.runs.lookup r := by
  rw [h.runs, Table.lookup_modify, if_neg hr]

theorem Rewrote.moved (h : Rewrote L L' runId f run.taskId told)
    (hr : L.runs.lookup runId = some run) : Moved L L' runId run (f run) (some told) :=
  moved_of_modify hr h.runs h.tasks h.events h.taskId (h.attempt run)
    (h.claimGitHead run)

end Kept

end Ledger

open Ledger

namespace Effect

variable {sha : Sha256} {L L' : Ledger} {o : Op}

theorem tasksKept (h : Effect sha L o L') : TasksKept L L' := by
  cases h with
  | quiet tasks => exact tasksKept_of_eq tasks
  | queued tasks => exact tasksKept_of_step tasks
  | started h => exact h.tasksKept
  | moved h | accepted h | completed h | waiting h | approved h => exact h.tasksKept
  | result h => obtain ⟨_, _, _, -, h, -⟩ := verifyResult_spec h; exact h.tasksKept
  | unclaimed h => exact (capabilityCreateFailed_spec h).1.tasksKept
  | finalized h => exact (finalizePublication_spec h).1.tasksKept
  | deleted | inserted | updated => exact tasksKept_of_eq rfl

theorem runsStay (h : Effect sha L o L') : RunsStay L L' := by
  cases h with
  | quiet _ h | queued _ h => exact runsStay_of_eq h.runs
  | started h => exact h.runsStay
  | moved h | accepted h | completed h | waiting h | approved h => exact h.runsStay
  | result h => obtain ⟨_, _, _, -, h, -⟩ := verifyResult_spec h; exact h.runsStay
  | unclaimed h => exact (capabilityCreateFailed_spec h).1.runsStay
  | finalized h => exact (finalizePublication_spec h).1.runsStay
  | deleted | inserted | updated => exact runsStay_of_eq rfl

theorem noneNew_or_started (h : Effect sha L o L') :
    NoneNew L L' ∨ ∃ runId run task, Started L L' runId run task := by
  cases h with
  | quiet _ h | queued _ h => exact .inl (noneNew_of_eq h.runs)
  | started h => exact .inr ⟨_, _, _, h⟩
  | moved h | accepted h | completed h | waiting h | approved h => exact .inl h.noneNew
  | result h => obtain ⟨_, _, _, -, h, -⟩ := verifyResult_spec h; exact .inl h.noneNew
  | unclaimed h => exact .inl (capabilityCreateFailed_spec h).1.noneNew
  | finalized h => exact .inl (finalizePublication_spec h).1.noneNew
  | deleted | inserted | updated => exact .inl (noneNew_of_eq rfl)

theorem tasksKnown (h : Effect sha L o L') (hL : L.TasksKnown) : L'.TasksKnown := by
  have known : ∀ r run', L'.runs.lookup r = some run' → (∃ run, L.runs.lookup r = some run) →
      ∃ task, L'.tasks.lookup run'.taskId = some task := by
    rintro r run' hr' ⟨run, hr⟩
    obtain ⟨task, ht⟩ := hL r run hr
    obtain ⟨task', ht', -⟩ := h.tasksKept _ task ht
    exact ⟨task', h.runsStay.taskId hr hr' ▸ ht'⟩
  rcases h.noneNew_or_started with hn | ⟨runId, run, task, hs⟩
  · exact fun r run' hr' => known r run' hr' (hn.exists hr')
  · intro r run' hr'
    by_cases hid : r = runId
    · subst hid
      rw [hs.lookup_self] at hr'
      cases hr'
      exact ⟨_, hs.started⟩
    · exact known r run' hr' ⟨run', (hs.lookup_ne hid).symm.trans hr'⟩

end Effect

end OrchKit
