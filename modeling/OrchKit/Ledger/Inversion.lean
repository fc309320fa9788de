import OrchKit.Ledger.Publication

/-! # What the claim transactions do

A queue transaction moves tasks among the statuses in which no run works on them. A
claim may in addition start one run, of a claimable task under a free writer key.
-/

namespace OrchKit

open Except

/-- What a transaction on the queue may do to the row of a task. -/
inductive TaskStep : Option Task → Option Task → Prop
  | same (row : Option Task) : TaskStep row row
  | planned {task : Task} (h : task.status = .planned) : TaskStep none (some task)
  | blocked {task : Task} (h : task.status ∈ readyTaskStates) :
      TaskStep (some task) (some { task with status := .blocked })
  | cancelled {task : Task} (h : task.status ∈ readyTaskStates ++ [.blocked]) :
      TaskStep (some task) (some { task with status := .cancelled })

theorem TaskStep.payload {row row' : Option Task} (h : TaskStep row row') {task : Task}
    (ht : row = some task) : ∃ task', row' = some task' ∧ task'.payload = task.payload := by
  cases h with
  | same => exact ⟨task, ht, rfl⟩
  | planned => cases ht
  | blocked => cases ht; exact ⟨_, rfl, rfl⟩
  | cancelled => cases ht; exact ⟨_, rfl, rfl⟩

theorem TaskStep.of_done {row row' : Option Task} (h : TaskStep row row') {task : Task}
    (ht : row' = some task) (hs : task.status = .done) : row = some task := by
  cases h with
  | same => exact ht
  | planned h => cases ht; rw [h] at hs; cases hs
  | blocked => cases ht; cases hs
  | cancelled => cases ht; cases hs

namespace Ledger

/-- Everything but the tasks and the queue's own tables is as it was; events are only added. -/
structure RunsKept (L L' : Ledger) : Prop where
  runs : L'.runs = L.runs
  snapshots : L'.snapshots = L.snapshots
  approvals : L'.approvals = L.approvals
  publications : L'.publications = L.publications
  events : L.events <:+ L'.events

theorem RunsKept.refl (L : Ledger) : RunsKept L L := ⟨rfl, rfl, rfl, rfl, List.suffix_refl _⟩

theorem RunsKept.trans {L₁ L₂ L₃ : Ledger} (h : RunsKept L₁ L₂) (h' : RunsKept L₂ L₃) :
    RunsKept L₁ L₃ :=
  ⟨h'.runs.trans h.runs, h'.snapshots.trans h.snapshots, h'.approvals.trans h.approvals,
    h'.publications.trans h.publications, h.events.trans h'.events⟩

theorem runsKept_block (L : Ledger) (taskId : TaskId) (status : TaskStatus) (kind : EventKind)
    (t : Option TaskId) (r : Option RunId) :
    RunsKept L ((L.setStatus taskId status).record kind t r) :=
  ⟨rfl, rfl, rfl, rfl, List.suffix_cons _ _⟩

def KeyFree (L : Ledger) (key : WriterKey) : Prop :=
  ∀ r run task, L.runs.lookup r = some run → run.state ∈ writerLockRunStates →
    L.tasks.lookup run.taskId = some task → task.payload.writerKey ≠ key

theorem mem_activeWriterLocks {L : Ledger} {r : RunId} {run : Run} {task : Task}
    (hr : L.runs.lookup r = some run) (hs : run.state ∈ writerLockRunStates)
    (ht : L.tasks.lookup run.taskId = some task) : (r, run, task) ∈ L.activeWriterLocks := by
  rw [activeWriterLocks, List.mem_insertionSort, List.mem_filterMap]
  refine ⟨⟨r, run⟩, AList.mem_lookup_iff.mp hr, ?_⟩
  simp only [ht, Option.bind_some, if_pos hs]

theorem keyFree_of_lockOf {L : Ledger} {key : WriterKey}
    (h : lockOf L.activeWriterLocks key = none) : L.KeyFree key := by
  intro r run task hr hs ht hkey
  rw [lockOf, Option.map_eq_none_iff, List.find?_eq_none] at h
  exact h _ (List.mem_reverse.mpr (mem_activeWriterLocks hr hs ht)) (by simpa using hkey)

/-- A ready task may have been blocked, and nothing else has happened to the tasks. -/
structure Demoted (L L' : Ledger) : Prop extends RunsKept L L' where
  tasks : ∀ id, L'.tasks.lookup id = L.tasks.lookup id ∨
    ∃ task, L.tasks.lookup id = some task ∧ task.status ∈ readyTaskStates ∧
      L'.tasks.lookup id = some { task with status := .blocked }

theorem Demoted.refl (L : Ledger) : Demoted L L := ⟨RunsKept.refl L, fun _ => .inl rfl⟩

theorem Demoted.block {L L' : Ledger} (h : Demoted L L') {taskId : TaskId} {task : Task}
    (ht : L.tasks.lookup taskId = some task) (hs : task.status ∈ readyTaskStates)
    (kind : EventKind) (t : Option TaskId) (r : Option RunId) :
    Demoted L ((L'.setStatus taskId .blocked).record kind t r) := by
  refine ⟨h.toRunsKept.trans (runsKept_block ..), fun id => ?_⟩
  simp only [record_tasks, setStatus_tasks, Table.lookup_modify]
  split
  next hid =>
    subst hid
    refine .inr ⟨task, ht, hs, ?_⟩
    rcases h.tasks id with h | ⟨task', ht', -, h⟩
    · rw [h, ht]; rfl
    · rw [h, Option.map_some, Option.some.inj (ht'.symm.trans ht)]
  next => exact h.tasks id

theorem Demoted.taskStep {L L' : Ledger} (h : Demoted L L') (id : TaskId) :
    TaskStep (L.tasks.lookup id) (L'.tasks.lookup id) := by
  rcases h.tasks id with h | ⟨task, ht, hs, h⟩
  · rw [h]; exact .same _
  · rw [h, ht]; exact .blocked hs

/-- A task a claim may start a run of, as it was when the claim began. -/
structure Claimable (L : Ledger) (taskId : TaskId) (task : Task) : Prop where
  found : L.tasks.lookup taskId = some task
  status : task.status ∈ readyTaskStates ++ [.blocked]
  free : L.KeyFree task.payload.writerKey
  budget : L.attempts taskId < task.payload.maxAttempts
  dependencies : L.dependenciesDone task.payload

/-- A claim has started a run. -/
structure Started (L L' : Ledger) (runId : RunId) (run : Run) (task : Task) : Prop where
  claimable : L.Claimable run.taskId task
  fresh : L.runs.lookup runId = none
  attempt : run.attempt = L.attempts run.taskId + 1
  state : run.state = .running
  snapshotId : run.snapshotId = none
  runs : L'.runs = L.runs.put runId run
  started : L'.tasks.lookup run.taskId = some { task with status := .inProgress }
  others : ∀ id, id ≠ run.taskId → TaskStep (L.tasks.lookup id) (L'.tasks.lookup id)
  snapshots : L'.snapshots = L.snapshots
  approvals : L'.approvals = L.approvals
  publications : L'.publications = L.publications
  events : L.events <:+ L'.events

theorem mem_queue {L : Ledger} {e : TaskId × Task} (h : e ∈ L.queue) :
    L.tasks.lookup e.1 = some e.2 := by
  rw [queue, List.mem_insertionSort, List.mem_map] at h
  obtain ⟨e, he, rfl⟩ := h
  exact AList.mem_lookup_iff.mpr he

theorem Demoted.attempts {L L' : Ledger} (h : Demoted L L') (taskId : TaskId) :
    L'.attempts taskId = L.attempts taskId := by
  rw [Ledger.attempts, h.runs, Ledger.attempts]

theorem dependenciesDone_iff {L : Ledger} {payload : TaskPayload} :
    L.dependenciesDone payload ↔ ∀ dep ∈ payload.dependencies,
      ∃ task, L.tasks.lookup dep = some task ∧ task.status = .done := by
  simp only [dependenciesDone, List.all_eq_true, Option.any_eq_true, decide_eq_true_eq]

theorem Demoted.dependenciesDone {L L' : Ledger} (h : Demoted L L') {payload : TaskPayload}
    (hd : L'.dependenciesDone payload) : L.dependenciesDone payload := by
  rw [dependenciesDone_iff] at hd ⊢
  intro dep hdep
  obtain ⟨task, ht, hs⟩ := hd dep hdep
  rcases h.tasks dep with h | ⟨task', -, -, h⟩
  · exact ⟨task, h ▸ ht, hs⟩
  · rw [h] at ht
    cases ht
    cases hs

/-- What a scan of the queue finds and leaves behind. -/
theorem scanQueue_spec {L : Ledger} (projectId : Option ProjectId)
    {rows : List (TaskId × Task)} (hrows : ∀ e ∈ rows, L.tasks.lookup e.1 = some e.2)
    {L₁ : Ledger} (h₁ : Demoted L L₁) (scan : Scan) (hscan : scan.selected = none) :
    Demoted L (scanQueue projectId L.activeWriterLocks rows L₁ scan).2 ∧
      ∀ s, (scanQueue projectId L.activeWriterLocks rows L₁ scan).1.selected = some s →
        L.Claimable s.1 s.2.1 ∧ s.2.1.status ∈ readyTaskStates ∧ s.2.2 = L.attempts s.1 + 1 := by
  induction rows generalizing L₁ scan with
  | nil => exact ⟨h₁, fun s hs => by rw [scanQueue, hscan] at hs; cases hs⟩
  | cons e rows ih =>
    obtain ⟨taskId, row⟩ := e
    have hrow : L.tasks.lookup taskId = some row := hrows _ List.mem_cons_self
    have hrest : ∀ e ∈ rows, L.tasks.lookup e.1 = some e.2 :=
      fun e he => hrows e (List.mem_cons_of_mem _ he)
    rw [scanQueue]
    split
    next => exact ih hrest h₁ _ hscan
    next hready =>
      rw [not_not] at hready
      split
      next => exact ih hrest h₁ _ hscan
      next =>
        split
        next => exact ih hrest h₁ _ hscan
        next =>
          split
          next => exact ih hrest h₁ _ hscan
          next hdeps =>
            split
            next => exact ih hrest (h₁.block hrow hready ..) _ hscan
            next hbudget =>
              split
              next => exact ih hrest h₁ _ hscan
              next hlock =>
                refine ⟨h₁, fun s hs => ?_⟩
                cases hs
                rw [not_not] at hdeps
                rw [h₁.attempts] at hbudget ⊢
                exact ⟨⟨hrow, List.mem_append_left _ hready, keyFree_of_lockOf hlock,
                  not_le.mp hbudget, h₁.dependenciesDone hdeps⟩, hready, rfl⟩

theorem startRun_spec {L L₁ L' : Ledger} {runId : RunId} {run : Run} {task : Task}
    {branch : Option String} {repair : Option (RunId × SnapshotId)}
    (h : L₁.startRun runId run task branch repair = .ok L') (h₁ : Demoted L L₁)
    (hc : L.Claimable run.taskId task) (ha : run.attempt = L.attempts run.taskId + 1)
    (hstate : run.state = .running) (hsnap : run.snapshotId = none) :
    Started L L' runId run task := by
  simp only [startRun, bind_eq_ok_iff, require_eq_ok_iff, pure_eq_ok_iff] at h
  obtain ⟨-, hfresh, rfl⟩ := h
  refine ⟨hc, by rw [← h₁.runs]; exact hfresh, ha, hstate, hsnap, ?_, ?_, ?_, h₁.snapshots,
    h₁.approvals, h₁.publications, h₁.events.trans (List.suffix_cons _ _)⟩
  · simp only [record_runs, setStatus_runs, h₁.runs]
  · simp only [record_tasks, setStatus_tasks, Table.lookup_modify, if_pos]
    rcases h₁.tasks run.taskId with h | ⟨task', ht, -, h⟩
    · rw [h, hc.found]; rfl
    · rw [h, Option.map_some, Option.some.inj (ht.symm.trans hc.found)]
  · intro id hid
    simp only [record_tasks, setStatus_tasks, Table.lookup_modify, if_neg hid]
    exact h₁.taskStep id

/-- The ledger the context pack of a claim is built from: the one claimed from, ready tasks whose
attempts are spent having been blocked on the way. -/
def Scanned (L L₁ : Ledger) : Prop :=
  L₁ = L ∨ ∃ projectId, L₁ = (scanQueue projectId L.activeWriterLocks L.queue L {}).2

/-- What a claim has done: blocked ready tasks, or started a run besides, of which the reply
tells, with its context pack. -/
def Claimed (L : Ledger) (host : Host) (reply : Reply) (L' : Ledger) : Prop :=
  (Demoted L L' ∧ reply.status ≠ .claimed ∧ reply.context = none) ∨
    ∃ runId run task, Started L L' runId run task ∧ reply.runId = some runId ∧
      reply.taskId = some run.taskId ∧ ∃ L₁ pack, Scanned L L₁ ∧
        L₁.buildContextPack (host 2) run.taskId task runId run.attempt run.claimGitHead false =
          .ok pack ∧ reply.context = some pack

theorem catchValue_eq_ok_iff {α : Type} {x : Checked α} {y : Except String α} :
    catchValue x = .ok y ↔ (∃ a, x = .ok a ∧ y = .ok a) ∨
      ∃ m, x = .error (.value m) ∧ y = .error m := by
  rcases x with (m | m) | a <;> simp [catchValue, eq_comm]

theorem claimQueued_spec {L : Ledger} {host : Host} {workerId : String}
    {projectId : Option ProjectId} {reply : Reply} {L' : Ledger}
    (h : L.claimQueued host workerId projectId = .ok (reply, L')) : Claimed L host reply L' := by
  obtain ⟨hdem, hsel⟩ := scanQueue_spec projectId (fun e he => mem_queue he) (Demoted.refl L) {} rfl
  have hscanned : Scanned L (scanQueue projectId L.activeWriterLocks L.queue L {}).2 :=
    .inr ⟨projectId, rfl⟩
  rw [claimQueued] at h
  generalize scanQueue projectId L.activeWriterLocks L.queue L {} = scanned
    at h hdem hsel hscanned
  obtain ⟨scan, L₁⟩ := scanned
  simp only at h hdem hsel hscanned
  split at h
  next =>
    split at h <;> cases h <;> exact .inl ⟨hdem, by simp, rfl⟩
  next taskId task attempt hs =>
    obtain ⟨hc, hready, ha⟩ := hsel _ hs
    simp only at hc hready ha
    subst ha
    simp only [bind_eq_ok_iff, catchValue_eq_ok_iff] at h
    obtain ⟨_, ⟨⟨head, branch⟩, -, rfl⟩ | ⟨reason, -, rfl⟩, h⟩ := h
    · simp only [bind_eq_ok_iff, catchValue_eq_ok_iff] at h
      obtain ⟨uuid, -, _, ⟨pack, hpack, rfl⟩ | ⟨reason, -, rfl⟩, h⟩ := h
      · simp only [bind_eq_ok_iff, pure_eq_ok_iff, Prod.mk.injEq] at h hpack
        obtain ⟨lease, -, now, -, L₂, hstart, rfl, rfl⟩ := h
        obtain ⟨_, hpack, -, -, rfl⟩ := hpack
        exact .inr ⟨_, _, task, startRun_spec hstart hdem hc rfl rfl rfl, rfl, rfl, L₁, _, hscanned,
          hpack, rfl⟩
      · cases h
        exact .inl ⟨hdem.block hc.found hready .., by simp, rfl⟩
    · cases h
      exact .inl ⟨hdem.block hc.found hready .., by simp, rfl⟩

theorem repairClaimGuard_status {L : Ledger} {sha : Sha256} {view : View} {taskId : TaskId}
    {task : Task} {priorRunId : RunId} {head : Option CommitId} {branch : Option String}
    {snapshotId : SnapshotId}
    (h : L.repairClaimGuard sha view taskId task priorRunId head branch = .ok snapshotId) :
    task.status = .blocked ∨ task.status = .needsFix := by
  rw [repairClaimGuard] at h
  -- every check before the last only has to have passed
  repeat obtain ⟨_, -, h⟩ := bind_eq_ok_iff.mp h
  split at h
  next hb => exact .inl hb
  next =>
    simp only [bind_eq_ok_iff, require_eq_ok_iff] at h
    obtain ⟨-, h, -⟩ := h
    exact .inr h

theorem repairClaimGuard_prior {L : Ledger} {sha : Sha256} {view : View} {taskId : TaskId}
    {task : Task} {priorRunId : RunId} {head : Option CommitId} {branch : Option String}
    {snapshotId : SnapshotId}
    (h : L.repairClaimGuard sha view taskId task priorRunId head branch = .ok snapshotId) :
    ∃ prior, L.runs.lookup priorRunId = some prior ∧ prior.state = .needsFix ∧
      prior.claimGitHead = head := by
  rw [repairClaimGuard] at h
  simp only [bind_eq_ok_iff, ofOption_eq_ok_iff, require_eq_ok_iff] at h
  obtain ⟨-, -, prior, hprior, -, -, -, ⟨hstate, -⟩, -, -, -, -, -, -, -, -, -, -, -, -, -,
    ⟨hhead, -⟩, -⟩ := h
  exact ⟨prior, hprior, hstate, hhead⟩

theorem claimRepair_spec {L : Ledger} {sha : Sha256} {host : Host} {workerId : String}
    {projectId : Option ProjectId} {priorRunId : RunId} {reply : Reply} {L' : Ledger}
    (h : L.claimRepair sha host workerId projectId priorRunId = .ok (reply, L')) :
    Claimed L host reply L' := by
  have refused {status : ReplyStatus} (hs : status ≠ .claimed) {r t p e} :
      (pure (⟨status, r, t, p, e, none, none, none, none, none⟩, L) : Checked (Reply × Ledger)) =
        .ok (reply, L') → Claimed L host reply L' := by
    intro h
    cases h
    exact .inl ⟨Demoted.refl L, hs, rfl⟩
  rw [claimRepair] at h
  split at h
  next => exact refused (by simp) h
  next prior hprior =>
    split at h
    next => exact refused (by simp) h
    next task htask =>
      simp only at h
      split at h
      next => exact refused (by simp) h
      next =>
        split at h
        next => exact refused (by simp) h
        next =>
          split at h
          next => exact refused (by simp) h
          next hdeps =>
            split at h
            next => exact refused (by simp) h
            next hbudget =>
              split at h
              next => exact refused (by simp) h
              next hlock =>
                simp only [bind_eq_ok_iff, catchValue_eq_ok_iff] at h
                obtain ⟨_, ⟨⟨sid₁, head₁, branch₁⟩, hfirst, rfl⟩ | ⟨reason, -, rfl⟩, h⟩ := h
                · simp only [bind_eq_ok_iff, catchValue_eq_ok_iff] at h
                  obtain ⟨uuid, -, _, ⟨⟨pack, sid, head, branch⟩, hadm, rfl⟩ | ⟨reason, -, rfl⟩,
                    h⟩ := h
                  · simp only [bind_eq_ok_iff, pure_eq_ok_iff, Prod.mk.injEq]
                      at h hfirst hadm
                    obtain ⟨lease, -, now, -, L₂, hstart, rfl, rfl⟩ := h
                    obtain ⟨_, -, _, hbefore, rfl, rfl⟩ := hfirst
                    obtain ⟨_, hpack, _, ⟨_, -, _, hguard, heq⟩, rfl, rfl⟩ := hadm
                    cases heq
                    -- both times the head is that of the run which is repaired
                    obtain ⟨run, hrun, -, hhead⟩ := repairClaimGuard_prior hbefore
                    obtain ⟨run', hrun', -, hhead'⟩ := repairClaimGuard_prior hguard
                    rw [hrun, Option.some.injEq] at hrun'
                    subst hrun'
                    obtain rfl : head₁ = head := hhead.symm.trans hhead'
                    have hstatus : task.status ∈ readyTaskStates ++ [.blocked] := by
                      rcases repairClaimGuard_status hguard with h | h <;>
                        simp [h, readyTaskStates]
                    have hc : L.Claimable prior.taskId task :=
                      ⟨htask, hstatus, keyFree_of_lockOf hlock, not_le.mp hbudget,
                        not_not.mp hdeps⟩
                    exact .inr ⟨_, _, task,
                      startRun_spec hstart (Demoted.refl L) hc rfl rfl rfl, rfl, rfl, L,
                      _, .inl rfl, hpack, rfl⟩
                  · exact refused (by simp) h
                · exact refused (by simp) h

theorem claim_spec {L : Ledger} {sha : Sha256} {host : Host} {workerId : String}
    {projectId : Option ProjectId} {repairFromRunId : Option RunId} {reply : Reply} {L' : Ledger}
    (h : L.claim sha host workerId projectId repairFromRunId = .ok (reply, L')) :
    Claimed L host reply L' := by
  simp only [claim, bind_eq_ok_iff, require_eq_ok_iff] at h
  obtain ⟨-, -, -, -, h⟩ := h
  split at h
  next => cases h; exact .inl ⟨Demoted.refl L, by simp, rfl⟩
  next =>
    split at h
    next => cases h; exact .inl ⟨Demoted.refl L, by simp, rfl⟩
    next =>
      split at h
      next => exact claimQueued_spec h
      next => exact claimRepair_spec h

/-- A lifecycle claim is a claim of the one task its grant names. -/
theorem consumeGrant_spec {L : Ledger} {sha : Sha256} {host : Host}
    {grantId operationId : String} {reply : Reply} {L' : Ledger}
    (h : L.consumeGrant sha host grantId operationId = .ok (reply, L')) :
    (L'.tasks = L.tasks ∧ RunsKept L L') ∨
      ∃ runId run task, Started L L' runId run task := by
  simp only [consumeGrant, bind_eq_ok_iff, require_eq_ok_iff] at h
  obtain ⟨grant, -, existing, -, -, -, h⟩ := h
  split at h
  next => cases h; exact .inl ⟨rfl, rfl, rfl, rfl, rfl, List.suffix_refl _⟩
  next => cases h; exact .inl ⟨rfl, rfl, rfl, rfl, rfl, List.suffix_refl _⟩
  next task href htask =>
    simp only [bind_eq_ok_iff, catchValue_eq_ok_iff] at h
    obtain ⟨uuid, -, _, ⟨⟨head, branch⟩, -, rfl⟩ | ⟨reason, -, rfl⟩, h⟩ := h
    · simp only [bind_eq_ok_iff, pure_eq_ok_iff, Prod.mk.injEq] at h
      obtain ⟨lease, -, now, -, L₂, hstart, -, rfl⟩ := h
      rw [grantRefusal] at href
      split at href
      next => cases href
      next hstale =>
        split at href
        next => cases href
        next =>
          split at href
          next => cases href
          next hblocked =>
            simp only [not_or, not_not] at hstale hblocked
            obtain ⟨hmatch, hready, hattempt⟩ := hstale
            obtain ⟨hopen, hlock⟩ := hblocked
            simp only [grantMatches, LifecycleGrantSpec.matching, taskReady, htask, Option.any_some,
              decide_eq_true_eq]
              at hmatch hready hopen
            rw [Option.isSome_iff_ne_none, not_not, ← hmatch.2.1] at hlock
            rw [not_or, not_not, ge_iff_le, not_le] at hopen
            have hc : L.Claimable grant.spec.taskId task :=
              ⟨htask, List.mem_append_left _ hready, keyFree_of_lockOf hlock, hopen.2, hopen.1⟩
            have hs := startRun_spec hstart (Demoted.refl L) hc hattempt.symm rfl rfl
            exact .inr ⟨_, _, task, hs.claimable, hs.fresh, hs.attempt, hs.state, hs.snapshotId,
              hs.runs, hs.started, hs.others, hs.snapshots, hs.approvals, hs.publications,
              hs.events⟩
    · cases h
      exact .inl ⟨rfl, rfl, rfl, rfl, rfl, List.suffix_refl _⟩

/-- The task a readmission supersedes has had its latest run rejected. -/
theorem readmissionGuard_previous {L : Ledger} {sha : Sha256} {view : View}
    {previousRunId dependencyRunId : RunId} {new : TaskPayload} {revision : String} {digest : Hash}
    {proof : ReadmissionProof}
    (h : L.readmissionGuard sha view previousRunId dependencyRunId new revision digest =
      .ok proof) :
    ∃ task, L.tasks.lookup proof.previousTaskId = some task ∧
      task.status ∈ readyTaskStates ++ [.blocked] := by
  rw [readmissionGuard] at h
  obtain ⟨prior, -, h⟩ := bind_eq_ok_iff.mp h
  obtain ⟨dependency, -, h⟩ := bind_eq_ok_iff.mp h
  obtain ⟨-, -, h⟩ := bind_eq_ok_iff.mp h
  obtain ⟨task, htask, h⟩ := bind_eq_ok_iff.mp h
  obtain ⟨depTask, -, h⟩ := bind_eq_ok_iff.mp h
  obtain ⟨-, -, h⟩ := bind_eq_ok_iff.mp h
  obtain ⟨-, -, h⟩ := bind_eq_ok_iff.mp h
  obtain ⟨-, -, h⟩ := bind_eq_ok_iff.mp h
  obtain ⟨-, -, h⟩ := bind_eq_ok_iff.mp h
  obtain ⟨-, -, h⟩ := bind_eq_ok_iff.mp h
  obtain ⟨-, -, h⟩ := bind_eq_ok_iff.mp h
  obtain ⟨-, -, h⟩ := bind_eq_ok_iff.mp h
  obtain ⟨identity, -, h⟩ := bind_eq_ok_iff.mp h
  obtain ⟨_, hguard, h⟩ := bind_eq_ok_iff.mp h
  -- the remaining checks only have to have passed
  repeat obtain ⟨_, -, h⟩ := bind_eq_ok_iff.mp h
  cases h
  refine ⟨task, ofOption_eq_ok_iff.mp htask, ?_⟩
  rcases repairClaimGuard_status hguard with h | h <;> simp [h, readyTaskStates]

end Ledger

end OrchKit
