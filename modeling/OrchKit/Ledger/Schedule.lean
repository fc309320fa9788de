import Mathlib.Data.String.Basic
import OrchKit.Data.Sorted
import OrchKit.Ledger.Inversion

/-! # The schedulers

Three readers of the queue decide which task comes next: the view of the queue, the
next piece of work, and the scan of a claim. Each has its own loop and its own
order of tests. They agree: the next work is the first task the view shows as
ready, and it is the task a claim selects, once it has blocked the tasks whose
attempts are spent. A claim starts a run of the task it selects, or blocks it when its
workspace is not fit for it or its context cannot be made.
-/

namespace OrchKit

open Except

/-- The values of a dict built from a list: the last element under each key, in the order in
which the keys come first. -/
def lastBy {α κ : Type} [DecidableEq κ] (key : α → κ) (xs : List α) : List α :=
  (xs.map key).eraseDups.filterMap fun k => xs.reverse.find? fun x => key x = k

abbrev Lock := RunId × Run × Task

def Lock.key (lock : Lock) : WriterKey := lock.2.2.payload.writerKey

/-- The texts of `queue_state`; the ready state reads like the status of the same name. -/
inductive QueueState
  | active
  | pausedProject
  | exhausted
  | waitingDependency
  | waitingWriter
  | status (status : TaskStatus)
deriving DecidableEq

abbrev QueueState.ready : QueueState := .status .ready

structure QueueItem where
  taskId : TaskId
  projectId : Option ProjectId
  queueSeq : ℕ
  taskStatus : TaskStatus
  queueState : QueueState
  attempts : ℕ
  maxAttempts : ℕ
  writerKey : WriterKey
  waitingDependencies : List TaskId
  writerLock : Option Lock

inductive ViewStatus
  | paused
  | projectPaused
  | ok
deriving DecidableEq

structure QueueView where
  status : ViewStatus
  projectId : Option ProjectId
  paused : Option String
  projectPauses : List (ProjectId × String)
  total : ℕ
  taskStatusCount : TaskStatus → ℕ
  queueStateCount : QueueState → ℕ
  activeWriters : List Lock
  tasks : List QueueItem
  shown : ℕ
  truncated : Bool

/-- The order of the queue: the numbers, and the ids among equal numbers. -/
def QueueItem.Before (a b : QueueItem) : Prop :=
  a.queueSeq < b.queueSeq ∨ (a.queueSeq = b.queueSeq ∧ a.taskId < b.taskId)

/-- The task is shown as ready, and comes before every other one that is. -/
def QueueView.FirstReady (view : QueueView) (taskId : TaskId) : Prop :=
  ∃ item ∈ view.tasks, item.taskId = taskId ∧ item.queueState = .ready ∧
    ∀ other ∈ view.tasks, other.queueState = .ready → other.taskId ≠ taskId → item.Before other

/-- What `next_work` answers. -/
inductive Work
  | paused (details : String)
  | projectPaused (projectId : ProjectId) (details : String)
  | ready (taskId : TaskId) (projectId : Option ProjectId) (writerKey : WriterKey) (queueSeq : ℕ)
      (nextAttempt : ℕ)
  | busy (active : Lock) (locks : List Lock)
  | projectsPaused (projectId : Option ProjectId) (pausedProjects : List (ProjectId × String))
  | noWork (projectId : Option ProjectId)

def Work.readyTask : Work → Option TaskId
  | .ready taskId .. => some taskId
  | _ => none

namespace Ledger

/-- `_active_writer_locks(conn).values()`. -/
def writerLocks (L : Ledger) : List Lock := lastBy Lock.key L.activeWriterLocks

/-- `locks.get(key)`. -/
def lockUnder (L : Ledger) (key : WriterKey) : Option Lock :=
  L.writerLocks.find? fun lock => lock.key = key

def projectPause (L : Ledger) (row : Task) : Option (ProjectId × String) :=
  row.payload.projectId.bind fun p => (L.projectPauses.lookup p).map fun details => (p, details)

/-- `_project_pauses(conn)`. -/
def pausedProjects (L : Ledger) : List (ProjectId × String) :=
  (L.projectPauses.entries.map fun e => (e.1, e.2)).insertionSort fun a b => a.1 ≤ b.1

def inProject (projectId : Option ProjectId) (row : Task) : Prop :=
  projectId = none ∨ row.payload.projectId = projectId

instance (projectId : Option ProjectId) (row : Task) : Decidable (inProject projectId row) :=
  inferInstanceAs (Decidable (_ ∨ _))

/-! ### The view of the queue -/

def waitingDependencies (L : Ledger) (payload : TaskPayload) : List TaskId :=
  payload.dependencies.filter fun dep => (L.tasks.lookup dep).all (·.status ≠ .done)

def queueState (L : Ledger) (taskId : TaskId) (row : Task) : QueueState :=
  if L.writerLocks.any (·.2.1.taskId = taskId) then .active
  else if row.status ∈ readyTaskStates then
    if (L.projectPause row).isSome then .pausedProject
    else if L.attempts taskId ≥ row.payload.maxAttempts then .exhausted
    else if L.waitingDependencies row.payload ≠ [] then .waitingDependency
    else if (L.lockUnder row.payload.writerKey).isSome then .waitingWriter
    else .ready
  else .status row.status

def queueItem (L : Ledger) (e : TaskId × Task) : QueueItem where
  taskId := e.1
  projectId := e.2.payload.projectId
  queueSeq := e.2.queueSeq
  taskStatus := e.2.status
  queueState := L.queueState e.1 e.2
  attempts := L.attempts e.1
  maxAttempts := e.2.payload.maxAttempts
  writerKey := e.2.payload.writerKey
  waitingDependencies := L.waitingDependencies e.2.payload
  writerLock :=
    if L.queueState e.1 e.2 = .waitingWriter then L.lockUnder e.2.payload.writerKey else none

def queueView (L : Ledger) (projectId : Option ProjectId) (limit : ℕ) : Checked QueueView := do
  require (∀ p ∈ projectId, isProjectId p) (.value "invalid_project_id")
  require (1 ≤ limit ∧ limit ≤ 500) (.value "invalid_queue_limit")
  let items := (L.queue.filter fun e => inProject projectId e.2).map L.queueItem
  let pauses := L.pausedProjects
  let projectPaused := projectId.any fun p => (L.projectPauses.lookup p).isSome
  return {
    status := if L.paused.isSome then .paused else if projectPaused then .projectPaused else .ok
    projectId := projectId
    paused := L.paused
    projectPauses := pauses.filter fun pause => projectId.all (pause.1 = ·)
    total := items.length
    taskStatusCount := fun status => items.countP (·.taskStatus = status)
    queueStateCount := fun state => items.countP (·.queueState = state)
    activeWriters := L.writerLocks
    tasks := items.take limit
    shown := min items.length limit
    truncated := items.length > limit }

/-! ### The next piece of work -/

/-- Nothing in the queue may start. -/
def idle (projectId : Option ProjectId) (blockedLocks : List Lock)
    (pausedProjects : List (ProjectId × String)) : Work :=
  match lastBy Prod.fst blockedLocks, lastBy Prod.fst pausedProjects with
  | active :: locks, _ => .busy active (active :: locks)
  | [], pause :: pauses => .projectsPaused projectId (pause :: pauses)
  | [], [] => .noWork projectId

def nextInQueue (L : Ledger) (projectId : Option ProjectId) :
    List (TaskId × Task) → List Lock → List (ProjectId × String) → Work
  | [], blockedLocks, pausedProjects => idle projectId blockedLocks pausedProjects
  | (taskId, row) :: rows, blockedLocks, pausedProjects =>
    if row.status ∉ readyTaskStates then
      L.nextInQueue projectId rows blockedLocks pausedProjects
    else if ¬ inProject projectId row then
      L.nextInQueue projectId rows blockedLocks pausedProjects
    else
      match L.projectPause row with
      | some pause => L.nextInQueue projectId rows blockedLocks (pausedProjects ++ [pause])
      | none =>
        if ¬ L.dependenciesDone row.payload then
          L.nextInQueue projectId rows blockedLocks pausedProjects
        else if L.attempts taskId ≥ row.payload.maxAttempts then
          L.nextInQueue projectId rows blockedLocks pausedProjects
        else
          match L.lockUnder row.payload.writerKey with
          | some lock => L.nextInQueue projectId rows (blockedLocks ++ [lock]) pausedProjects
          | none =>
            .ready taskId row.payload.projectId row.payload.writerKey row.queueSeq
              (L.attempts taskId + 1)

def nextWork (L : Ledger) (projectId : Option ProjectId) : Checked Work := do
  require (∀ p ∈ projectId, isProjectId p) (.value "invalid_project_id")
  match L.paused with
  | some details => return .paused details
  | none =>
    match projectId.bind fun p => (L.projectPauses.lookup p).map fun d => (p, d) with
    | some (p, details) => return .projectPaused p details
    | none => return L.nextInQueue projectId L.queue [] []

/-! ### Locks -/

theorem mem_lastBy {α κ : Type} [DecidableEq κ] {key : α → κ} {xs : List α} {x : α} :
    x ∈ lastBy key xs ↔ xs.reverse.find? (fun y => key y = key x) = some x := by
  unfold lastBy
  simp only [List.mem_filterMap, List.mem_eraseDups, List.mem_map]
  constructor
  · rintro ⟨_, ⟨_, -, rfl⟩, h⟩
    have hkey := List.find?_some h
    simp only [decide_eq_true_eq] at hkey
    rwa [hkey]
  · intro h
    exact ⟨key x, ⟨x, List.mem_reverse.mp (List.mem_of_find?_eq_some h), rfl⟩, h⟩

theorem mem_of_mem_lastBy {α κ : Type} [DecidableEq κ] {key : α → κ} {xs : List α} {x : α}
    (h : x ∈ lastBy key xs) : x ∈ xs :=
  List.mem_reverse.mp (List.mem_of_find?_eq_some (mem_lastBy.mp h))

variable {L : Ledger}

theorem lockUnder_eq_none_iff {key : WriterKey} :
    L.lockUnder key = none ↔ lockOf L.activeWriterLocks key = none := by
  rw [lockOf, Option.map_eq_none_iff]
  unfold lockUnder writerLocks
  constructor
  · intro h
    rw [List.find?_eq_none] at h
    rw [Option.eq_none_iff_forall_ne_some]
    intro lock hlock
    have hkey := List.find?_some hlock
    simp only [decide_eq_true_eq] at hkey
    refine h lock (mem_lastBy.mpr ?_) (decide_eq_true hkey)
    simpa only [Lock.key, hkey] using hlock
  · intro h
    rw [List.find?_eq_none] at h ⊢
    intro lock hlock
    exact h lock (List.mem_reverse.mpr (mem_of_mem_lastBy hlock))

theorem lookup_of_mem_activeWriterLocks {lock : Lock} (h : lock ∈ L.activeWriterLocks) :
    L.tasks.lookup lock.2.1.taskId = some lock.2.2 := by
  rw [activeWriterLocks, List.mem_insertionSort, List.mem_filterMap] at h
  obtain ⟨e, -, h⟩ := h
  obtain ⟨task, htask, h⟩ := Option.bind_eq_some_iff.mp h
  split at h
  · cases h
    exact htask
  · cases h

theorem lockUnder_ne_none_of_active {taskId : TaskId} {row : Task}
    (hrow : L.tasks.lookup taskId = some row)
    (h : L.writerLocks.any (·.2.1.taskId = taskId)) : L.lockUnder row.payload.writerKey ≠ none := by
  obtain ⟨lock, hlock, htask⟩ := List.any_eq_true.mp h
  simp only [decide_eq_true_eq] at htask
  have hlook := lookup_of_mem_activeWriterLocks (mem_of_mem_lastBy hlock)
  rw [htask, hrow] at hlook
  intro hnone
  exact List.find?_eq_none.mp hnone lock hlock (by simp [Lock.key, ← Option.some.inj hlook])

theorem waitingDependencies_eq_nil_iff {payload : TaskPayload} :
    L.waitingDependencies payload = [] ↔ L.dependenciesDone payload := by
  rw [waitingDependencies, List.filter_eq_nil_iff, dependenciesDone, List.all_eq_true]
  refine forall₂_congr fun dep _ => ?_
  cases L.tasks.lookup dep <;> simp

/-! ### The first task that may start -/

/-- The tests a task has to pass, on the ledger as it is. -/
structure Startable (L : Ledger) (projectId : Option ProjectId) (e : TaskId × Task) : Prop where
  status : e.2.status ∈ readyTaskStates
  inProject : inProject projectId e.2
  unpaused : L.projectPause e.2 = none
  dependencies : L.dependenciesDone e.2.payload
  budget : L.attempts e.1 < e.2.payload.maxAttempts
  free : L.lockUnder e.2.payload.writerKey = none

instance (L : Ledger) (projectId : Option ProjectId) (e : TaskId × Task) :
    Decidable (L.Startable projectId e) :=
  decidable_of_iff (e.2.status ∈ readyTaskStates ∧ Ledger.inProject projectId e.2 ∧
      L.projectPause e.2 = none ∧ L.dependenciesDone e.2.payload ∧
      L.attempts e.1 < e.2.payload.maxAttempts ∧ L.lockUnder e.2.payload.writerKey = none)
    ⟨fun ⟨h₁, h₂, h₃, h₄, h₅, h₆⟩ => ⟨h₁, h₂, h₃, h₄, h₅, h₆⟩,
      fun h => ⟨h.status, h.inProject, h.unpaused, h.dependencies, h.budget, h.free⟩⟩

def firstStartable (L : Ledger) (projectId : Option ProjectId) : Option (TaskId × Task) :=
  L.queue.find? fun e => L.Startable projectId e

theorem queueState_eq_ready_iff {projectId : Option ProjectId} {e : TaskId × Task}
    (hrow : L.tasks.lookup e.1 = some e.2) :
    (inProject projectId e.2 ∧ L.queueState e.1 e.2 = .ready) ↔ L.Startable projectId e := by
  unfold queueState
  constructor
  · rintro ⟨hproject, h⟩
    split at h
    next => cases h
    next hactive =>
      split at h
      next hready =>
        split at h
        next => cases h
        next hpause =>
          split at h
          next => cases h
          next hbudget =>
            split at h
            next => cases h
            next hdeps =>
              split at h
              next => cases h
              next hfree =>
                exact ⟨hready, hproject, by simpa using hpause,
                  waitingDependencies_eq_nil_iff.mp (not_not.mp hdeps), not_le.mp hbudget,
                  by simpa using hfree⟩
      next hready =>
        rw [QueueState.ready, QueueState.status.injEq] at h
        exact absurd (by simp [h, readyTaskStates]) hready
  · intro s
    have hactive : ¬ L.writerLocks.any (·.2.1.taskId = e.1) :=
      fun h => lockUnder_ne_none_of_active hrow h s.free
    rw [if_neg hactive, if_pos s.status, if_neg (by simp [s.unpaused]),
      if_neg (not_le.mpr s.budget),
      if_neg (not_not.mpr (waitingDependencies_eq_nil_iff.mpr s.dependencies)),
      if_neg (by simp [s.free])]
    exact ⟨s.inProject, rfl⟩

theorem nextInQueue_readyTask (L : Ledger) (projectId : Option ProjectId)
    (rows : List (TaskId × Task)) (blockedLocks : List Lock)
    (pausedProjects : List (ProjectId × String)) :
    (L.nextInQueue projectId rows blockedLocks pausedProjects).readyTask =
      (rows.find? fun e => L.Startable projectId e).map Prod.fst := by
  induction rows generalizing blockedLocks pausedProjects with
  | nil =>
    unfold nextInQueue idle
    split <;> rfl
  | cons e rows ih =>
    obtain ⟨taskId, row⟩ := e
    have skip (h : ¬ L.Startable projectId (taskId, row)) :
        ((taskId, row) :: rows).find? (fun e => L.Startable projectId e) =
          rows.find? fun e => L.Startable projectId e :=
      List.find?_cons_of_neg (by simpa using h)
    unfold nextInQueue
    split
    next h => rw [ih, skip fun s => h s.status]
    next hready =>
      split
      next h => rw [ih, skip fun s => h s.inProject]
      next hproject =>
        split
        next pause h => rw [ih, skip fun s => nomatch h.symm.trans s.unpaused]
        next hpause =>
          split
          next h => rw [ih, skip fun s => h s.dependencies]
          next hdeps =>
            split
            next h => rw [ih, skip fun s => absurd s.budget (not_lt.mpr h)]
            next hbudget =>
              split
              next lock h => rw [ih, skip fun s => nomatch h.symm.trans s.free]
              next hfree =>
                have hs : L.Startable projectId (taskId, row) :=
                  ⟨not_not.mp hready, not_not.mp hproject, hpause, not_not.mp hdeps,
                    not_le.mp hbudget, hfree⟩
                rw [List.find?_cons_of_pos (by simpa using hs)]
                rfl

/-! ### What a claim selects -/

/-- Tasks whose attempts are spent may have been blocked, and nothing else has happened. -/
structure Marked (L L' : Ledger) : Prop extends RunsKept L L' where
  projectPauses : L'.projectPauses = L.projectPauses
  tasks : ∀ id, L'.tasks.lookup id = L.tasks.lookup id ∨
    ∃ task, L.tasks.lookup id = some task ∧ task.status ∈ readyTaskStates ∧
      L.attempts id ≥ task.payload.maxAttempts ∧
      L'.tasks.lookup id = some { task with status := .blocked }

theorem Marked.refl (L : Ledger) : Marked L L := ⟨RunsKept.refl L, rfl, fun _ => .inl rfl⟩

theorem Marked.demoted {L L' : Ledger} (h : Marked L L') : Demoted L L' := by
  refine ⟨h.toRunsKept, fun id => ?_⟩
  rcases h.tasks id with h | ⟨task, ht, hs, -, h⟩
  · exact .inl h
  · exact .inr ⟨task, ht, hs, h⟩

theorem Marked.block {L L' : Ledger} (h : Marked L L') {taskId : TaskId} {task : Task}
    (ht : L.tasks.lookup taskId = some task) (hs : task.status ∈ readyTaskStates)
    (hspent : L.attempts taskId ≥ task.payload.maxAttempts) (kind : EventKind)
    (t : Option TaskId) (r : Option RunId) :
    Marked L ((L'.setStatus taskId .blocked).record kind t r) := by
  refine ⟨h.toRunsKept.trans (runsKept_block ..), h.projectPauses, fun id => ?_⟩
  rcases (h.demoted.block ht hs kind t r).tasks id with hid | ⟨task', ht', hs', hid⟩
  · exact .inl hid
  · by_cases heq : id = taskId
    · subst heq
      rw [ht] at ht'
      cases ht'
      exact .inr ⟨task, ht, hs, hspent, hid⟩
    · simp only [record_tasks, setStatus_tasks, Table.lookup_modify, if_neg heq] at hid ⊢
      exact h.tasks id

theorem Marked.dependenciesDone_iff {L L' : Ledger} (h : Marked L L') {payload : TaskPayload} :
    L'.dependenciesDone payload ↔ L.dependenciesDone payload := by
  constructor
  · exact h.demoted.dependenciesDone
  · intro hd
    rw [Ledger.dependenciesDone_iff] at hd ⊢
    intro dep hdep
    obtain ⟨task, ht, hs⟩ := hd dep hdep
    rcases h.tasks dep with h | ⟨task', ht', hready, -⟩
    · exact ⟨task, h.trans ht, hs⟩
    · rw [ht] at ht'
      cases ht'
      simp [hs, readyTaskStates] at hready

/-- A scan marks spent tasks and selects the first task that may start. -/
theorem scanQueue_selected {L : Ledger} (projectId : Option ProjectId)
    {rows : List (TaskId × Task)} (hrows : ∀ e ∈ rows, L.tasks.lookup e.1 = some e.2)
    {L₁ : Ledger} (h₁ : Marked L L₁) (scan : Scan) (hscan : scan.selected = none) :
    Marked L (scanQueue projectId L.activeWriterLocks rows L₁ scan).2 ∧
      (scanQueue projectId L.activeWriterLocks rows L₁ scan).1.selected =
        (rows.find? fun e => L.Startable projectId e).map
          fun e => (e.1, e.2, L.attempts e.1 + 1) := by
  induction rows generalizing L₁ scan with
  | nil => exact ⟨h₁, hscan⟩
  | cons e rows ih =>
    obtain ⟨taskId, row⟩ := e
    have hrow : L.tasks.lookup taskId = some row := hrows _ List.mem_cons_self
    have hrest : ∀ e ∈ rows, L.tasks.lookup e.1 = some e.2 :=
      fun e he => hrows e (List.mem_cons_of_mem _ he)
    have skip (h : ¬ L.Startable projectId (taskId, row)) :
        ((taskId, row) :: rows).find? (fun e => L.Startable projectId e) =
          rows.find? fun e => L.Startable projectId e :=
      List.find?_cons_of_neg (by simpa using h)
    rw [scanQueue]
    split
    next h => rw [skip fun s => h s.status]; exact ih hrest h₁ _ hscan
    next hready =>
      rw [not_not] at hready
      split
      next h =>
        rw [skip fun s => h.2 (s.inProject.resolve_left (Option.isSome_iff_ne_none.mp h.1))]
        exact ih hrest h₁ _ hscan
      next hproject =>
        split
        next p h =>
          obtain ⟨hp, hpaused⟩ := Option.filter_eq_some_iff.mp h
          rw [h₁.projectPauses] at hpaused
          obtain ⟨details, hdetails⟩ := Option.isSome_iff_exists.mp hpaused
          rw [skip fun s => by have := s.unpaused; simp [projectPause, hp, hdetails] at this]
          exact ih hrest h₁ _ hscan
        next hpause =>
          split
          next h =>
            rw [h₁.dependenciesDone_iff] at h
            rw [skip fun s => h s.dependencies]
            exact ih hrest h₁ _ hscan
          next hdeps =>
            rw [not_not, h₁.dependenciesDone_iff] at hdeps
            rw [h₁.demoted.attempts]
            split
            next hspent =>
              rw [skip fun s => absurd s.budget (not_lt.mpr hspent)]
              exact ih hrest (h₁.block hrow hready hspent ..) _ hscan
            next hbudget =>
              split
              next lock h =>
                rw [skip fun s => Option.some_ne_none _
                  (h.symm.trans (lockUnder_eq_none_iff.mp s.free))]
                exact ih hrest h₁ _ hscan
              next hfree =>
                have hs : L.Startable projectId (taskId, row) := by
                  refine ⟨hready, ?_, ?_, hdeps, not_le.mp hbudget, lockUnder_eq_none_iff.mpr hfree⟩
                  · by_cases hp : projectId = none
                    · exact .inl hp
                    · rw [not_and, not_not] at hproject
                      exact .inr (hproject (Option.isSome_iff_ne_none.mpr hp))
                  · rw [Option.filter_eq_none_iff, h₁.projectPauses] at hpause
                    rcases hp : row.payload.projectId with _ | p
                    · simp [projectPause, hp]
                    · simpa [projectPause, hp] using hpause p hp
                rw [List.find?_cons_of_pos (by simpa using hs)]
                exact ⟨h₁, rfl⟩

def selection (L : Ledger) (projectId : Option ProjectId) : Option TaskId :=
  (scanQueue projectId L.activeWriterLocks L.queue L {}).1.selected.map Prod.fst

theorem selection_eq (L : Ledger) (projectId : Option ProjectId) :
    L.selection projectId = (L.firstStartable projectId).map Prod.fst := by
  rw [selection, (scanQueue_selected projectId (fun e he => mem_queue he) (Marked.refl L) {} rfl).2,
    Option.map_map]
  rfl

/-- Why the task that a claim selects is blocked: its workspace is not fit for it, its context
cannot be made, or the workspace is not as it was any more once the context is made. -/
inductive Unfit (L : Ledger) (host : Host) (taskId : TaskId) (row : Task) (attempt : ℕ) :
    EventKind → String → Prop
  | workspace {reason : String}
      (refused : claimPreflight host row.payload = .error (.value reason)) :
      Unfit L host taskId row attempt (.taskBlockedAtClaim reason row.payload.projectId) reason
  | context {reason uuid : String} {head : Option CommitId} {branch : Option String}
      (identity : claimPreflight host row.payload = .ok (head, branch))
      (named : host 2 .uuidHex = .ok uuid)
      (refused : L.buildContextPack (host 2) taskId row (newRunId taskId attempt uuid) attempt head
        false = .error (.value reason)) :
      Unfit L host taskId row attempt (.taskBlockedContext reason row.payload.projectId) reason
  | changed {reason uuid : String} {head : Option CommitId} {branch : Option String}
      {pack : ContextPack} (identity : claimPreflight host row.payload = .ok (head, branch))
      (named : host 2 .uuidHex = .ok uuid)
      (packed : L.buildContextPack (host 2) taskId row (newRunId taskId attempt uuid) attempt head
        false = .ok pack)
      (refused : claimRecheck host row.payload head branch = .error (.value reason)) :
      Unfit L host taskId row attempt (.taskBlockedContext reason row.payload.projectId) reason

/-- A task is given this status with an event of this kind, and no other task is touched. -/
structure Told (L L' : Ledger) (taskId : TaskId) (row : Task) (status : TaskStatus)
    (kind : EventKind) (runId : Option RunId) : Prop where
  tasks : ∀ id, L'.tasks.lookup id =
    if id = taskId then some { row with status := status } else L.tasks.lookup id
  events : L'.events = ⟨kind, taskId, runId⟩ :: L.events

/-- A run begins under an id that no run had, and its task is in progress. -/
structure Begun (L L' : Ledger) (runId : RunId) (run : Run) (row : Task) (branch : Option String) :
    Prop extends Told L L' run.taskId row .inProgress (.runClaimed run.attempt run.workerId
      row.payload.projectId row.payload.writerKey row.queueSeq run.claimGitHead branch none)
      runId where
  fresh : L.runs.lookup runId = none
  runs : ∀ r, L'.runs.lookup r = if r = runId then some run else L.runs.lookup r

/-- What a claim does with the task it selects, once the spent tasks are marked: it starts the next
attempt of the task where its workspace has been found to be, or blocks it for a reason. -/
inductive Selected (L : Ledger) (host : Host) (workerId : String) (taskId : TaskId) :
    Reply → Ledger → Prop
  | started {L₁ L' : Ledger} {row : Task} {head : Option CommitId} {branch : Option String}
      {uuid lease : String} {now : Time} {pack : ContextPack}
      (held : L.tasks.lookup taskId = some row) (marked : L.Marked L₁)
      (identity : claimPreflight host row.payload = .ok (head, branch))
      (named : host 2 .uuidHex = .ok uuid)
      (packed : L₁.buildContextPack (host 2) taskId row
        (newRunId taskId (L.attempts taskId + 1) uuid) (L.attempts taskId + 1) head false =
          .ok pack)
      (unchanged : claimRecheck host row.payload head branch = .ok ())
      (begun : L₁.Begun L' (newRunId taskId (L.attempts taskId + 1) uuid)
        ⟨taskId, L.attempts taskId + 1, workerId, .running, lease, now, head, none, none,
          none, none, none, none⟩ row branch) :
      Selected L host workerId taskId
        { status := .claimed, runId := newRunId taskId (L.attempts taskId + 1) uuid,
          taskId := taskId, projectId := row.payload.projectId, lease := lease,
          attempt := some (L.attempts taskId + 1), context := pack } L'
  | blocked {L₁ L' : Ledger} {row : Task} {kind : EventKind} {reason : String}
      (held : L.tasks.lookup taskId = some row) (marked : L.Marked L₁)
      (unfit : L₁.Unfit host taskId row (L.attempts taskId + 1) kind reason)
      (told : L₁.Told L' taskId row .blocked kind none) (runs : L'.runs = L.runs) :
      Selected L host workerId taskId
        { status := .blocked, taskId := taskId, projectId := row.payload.projectId,
          reason := reason } L'

variable {L L' : Ledger} {projectId : Option ProjectId} {host : Host} {workerId : String}
  {reply : Reply} {taskId : TaskId} {row : Task}

theorem Selected.reports (h : L.Selected host workerId taskId reply L') :
    reply.taskId = some taskId ∧ (reply.status = .claimed ∨ reply.status = .blocked) := by
  cases h with
  | started => exact ⟨rfl, .inl rfl⟩
  | blocked => exact ⟨rfl, .inr rfl⟩

theorem told_setStatus (hrow : L.tasks.lookup taskId = some row) (status : TaskStatus)
    (kind : EventKind) (runId : Option RunId) :
    L.Told ((L.setStatus taskId status).record kind taskId runId) taskId row status kind runId := by
  constructor
  · intro id
    rw [record_tasks, setStatus_tasks, Table.lookup_modify]
    split
    next h =>
      rw [h, hrow]
      rfl
    next => rfl
  · rfl

theorem begun_of_startRun {runId : RunId} {run : Run} {branch : Option String}
    (hrow : L.tasks.lookup run.taskId = some row)
    (h : L.startRun runId run row branch none = .ok L') : L.Begun L' runId run row branch := by
  simp only [startRun, bind_eq_ok_iff, require_eq_ok_iff, pure_eq_ok_iff] at h
  obtain ⟨_, hfresh, rfl⟩ := h
  constructor
  · have htold := told_setStatus (L := { L with runs := L.runs.put runId run }) hrow .inProgress
      (.runClaimed run.attempt run.workerId row.payload.projectId row.payload.writerKey row.queueSeq
        run.claimGitHead branch none) (some runId)
    exact ⟨htold.tasks, htold.events⟩
  · exact hfresh
  · exact fun r => Table.lookup_put ..

theorem held_of_scanQueue (hmarked : L.Marked L') {attempt : ℕ}
    (h : (L.firstStartable projectId).map (fun e => (e.1, e.2, L.attempts e.1 + 1)) =
      some (taskId, row, attempt)) :
    L.tasks.lookup taskId = some row ∧ L'.tasks.lookup taskId = some row ∧
      attempt = L.attempts taskId + 1 := by
  obtain ⟨e, he, heq⟩ := Option.map_eq_some_iff.mp h
  obtain ⟨rfl, rfl, rfl⟩ : e.1 = taskId ∧ e.2 = row ∧ L.attempts e.1 + 1 = attempt := by
    simpa using heq
  have hstart : L.Startable projectId e := by simpa using List.find?_some he
  have hheld := mem_queue (List.mem_of_find?_eq_some he)
  rcases hmarked.tasks e.1 with hsame | ⟨task, htask, -, hspent, -⟩
  · exact ⟨hheld, hsame.trans hheld, rfl⟩
  · rw [hheld] at htask
    cases htask
    exact absurd hstart.budget (not_lt.mpr hspent)

theorem claimQueued_selected
    (h : L.claimQueued host workerId projectId = .ok (reply, L')) :
    (∀ t, L.selection projectId = some t → L.Selected host workerId t reply L') ∧
      (L.selection projectId = none →
        L.Marked L' ∧ reply.status ≠ .claimed ∧ reply.status ≠ .blocked) := by
  obtain ⟨hmarked, hselected⟩ :=
    scanQueue_selected projectId (fun e he => mem_queue he) (Marked.refl L) {} rfl
  unfold selection
  unfold claimQueued at h
  generalize scanQueue projectId L.activeWriterLocks L.queue L {} = scanned at h hmarked hselected ⊢
  obtain ⟨scan, L₁⟩ := scanned
  simp only at h hmarked hselected ⊢
  split at h
  next hnone =>
    rw [hnone]
    constructor
    · intro t ht
      cases ht
    · intro _
      split at h <;> cases h <;> exact ⟨hmarked, by simp, by simp⟩
  next taskId task attempt hsome =>
    rw [hsome]
    refine ⟨fun t ht => ?_, fun h => nomatch h⟩
    cases ht
    obtain ⟨hheld, hheld₁, rfl⟩ := held_of_scanQueue hmarked (hselected.symm.trans hsome)
    simp only [bind_eq_ok_iff, catchValue_eq_ok_iff] at h
    obtain ⟨_, ⟨⟨head, branch⟩, hidentity, rfl⟩ | ⟨reason, hrefused, rfl⟩, h⟩ := h
    · simp only [bind_eq_ok_iff, catchValue_eq_ok_iff] at h
      obtain ⟨uuid, huuid, _, ⟨pack, hpack, rfl⟩ | ⟨reason, hrefused, rfl⟩, h⟩ := h
      · simp only [bind_eq_ok_iff, pure_eq_ok_iff, Prod.mk.injEq] at h hpack
        obtain ⟨lease, -, now, -, L₂, hstart, rfl, rfl⟩ := h
        obtain ⟨_, hpacked, _, hunchanged, rfl⟩ := hpack
        exact .started hheld hmarked hidentity huuid hpacked hunchanged
          (begun_of_startRun hheld₁ hstart)
      · cases h
        refine .blocked hheld hmarked ?_ (told_setStatus hheld₁ ..) hmarked.runs
        rcases bind_eq_error_iff.mp hrefused with hpack | ⟨pack, hpacked, hchanged⟩
        · exact .context hidentity huuid hpack
        · rcases bind_eq_error_iff.mp hchanged with hrecheck | ⟨_, -, hpure⟩
          · exact .changed hidentity huuid hpacked hrecheck
          · cases hpure
    · cases h
      exact .blocked hheld hmarked (.workspace hrefused) (told_setStatus hheld₁ ..) hmarked.runs

theorem claimQueued_of_selection_none (host : Host) (workerId : String)
    (h : L.selection projectId = none) :
    ∃ answer, L.claimQueued host workerId projectId = .ok answer := by
  unfold selection at h
  unfold claimQueued
  rw [Option.map_eq_none_iff] at h
  simp only [h]
  split <;> exact ⟨_, rfl⟩

theorem nextWork_readyTask (hvalid : ∀ p ∈ projectId, isProjectId p) (hpaused : L.paused = none)
    (hproject : ∀ p ∈ projectId, L.projectPauses.lookup p = none) :
    ∃ work, L.nextWork projectId = .ok work ∧
      work.readyTask = (L.firstStartable projectId).map Prod.fst := by
  have hnone : (projectId.bind fun p => (L.projectPauses.lookup p).map fun d => (p, d)) = none := by
    rcases projectId with _ | p
    · rfl
    · simp [hproject p rfl]
  refine ⟨L.nextInQueue projectId L.queue [] [], ?_, L.nextInQueue_readyTask ..⟩
  unfold nextWork
  rw [require_of hvalid, ok_bind]
  simp only [hpaused, hnone]
  rfl

theorem queueView_tasks {limit : ℕ} {view : QueueView}
    (hview : L.queueView projectId limit = .ok view) (huntruncated : view.truncated = false) :
    view.tasks = (L.queue.filter fun e => inProject projectId e.2).map L.queueItem := by
  simp only [queueView, bind_eq_ok_iff, pure_eq_ok_iff] at hview
  obtain ⟨-, -, -, -, rfl⟩ := hview
  simp only [decide_eq_false_iff_not, not_lt] at huntruncated
  exact List.take_of_length_le huntruncated

theorem mem_queue_of_lookup (h : L.tasks.lookup taskId = some row) : (taskId, row) ∈ L.queue := by
  rw [queue, List.mem_insertionSort, List.mem_map]
  exact ⟨⟨taskId, row⟩, AList.mem_lookup_iff.mp h, rfl⟩

variable (L) in
theorem pairwise_queue : L.queue.Pairwise fun a b => (L.queueItem a).Before (L.queueItem b) := by
  have hsorted := List.pairwise_insertionSort_lex (fun e : TaskId × Task => e.2.queueSeq) Prod.fst
    (fun a b => a.2.queueSeq < b.2.queueSeq ∨ (a.2.queueSeq = b.2.queueSeq ∧ a.1 ≤ b.1))
    (fun _ _ => Iff.rfl) (L.tasks.entries.map fun e => (e.1, e.2))
  have hids : (L.queue.map Prod.fst).Nodup := by
    have hperm := (List.perm_insertionSort (fun a b : TaskId × Task =>
      a.2.queueSeq < b.2.queueSeq ∨ (a.2.queueSeq = b.2.queueSeq ∧ a.1 ≤ b.1))
      (L.tasks.entries.map fun e => (e.1, e.2))).map Prod.fst
    rw [queue, hperm.nodup_iff, List.map_map]
    exact L.tasks.nodupKeys
  refine (hsorted.and (List.pairwise_map.mp hids)).imp ?_
  rintro a b ⟨hlt | ⟨heq, hle⟩, hne⟩
  · exact .inl hlt
  · exact .inr ⟨heq, lt_of_le_of_ne hle hne⟩

theorem mem_tasks_iff {limit : ℕ} {view : QueueView}
    (hview : L.queueView projectId limit = .ok view) (huntruncated : view.truncated = false)
    (item : QueueItem) : item ∈ view.tasks ↔ ∃ row, L.tasks.lookup item.taskId = some row ∧
      inProject projectId row ∧ item = L.queueItem (item.taskId, row) := by
  rw [queueView_tasks hview huntruncated, List.mem_map]
  constructor
  · rintro ⟨e, he, rfl⟩
    rw [List.mem_filter, decide_eq_true_eq] at he
    exact ⟨e.2, mem_queue he.1, he.2, rfl⟩
  · rintro ⟨row, hrow, hproject, hitem⟩
    refine ⟨(item.taskId, row), ?_, hitem.symm⟩
    rw [List.mem_filter, decide_eq_true_eq]
    exact ⟨mem_queue_of_lookup hrow, hproject⟩

theorem firstReady_iff {limit : ℕ} {view : QueueView}
    (hview : L.queueView projectId limit = .ok view) (huntruncated : view.truncated = false) :
    view.FirstReady taskId ↔ (L.firstStartable projectId).map Prod.fst = some taskId := by
  have hready : ∀ item : QueueItem, item ∈ view.tasks ∧ item.queueState = .ready ↔
      ∃ e ∈ L.queue, L.Startable projectId e ∧ item = L.queueItem e := by
    intro item
    rw [mem_tasks_iff hview huntruncated]
    constructor
    · rintro ⟨⟨row, hrow, hproject, hitem⟩, hstate⟩
      rw [hitem] at hstate
      exact ⟨_, mem_queue_of_lookup hrow, (queueState_eq_ready_iff hrow).mp
        ⟨hproject, hstate⟩, hitem⟩
    · rintro ⟨e, he, hstart, rfl⟩
      obtain ⟨hproject, hstate⟩ := (queueState_eq_ready_iff (mem_queue he)).mpr hstart
      exact ⟨⟨e.2, mem_queue he, hproject, rfl⟩, hstate⟩
  have hasymm : ∀ a b : TaskId × Task, (L.queueItem a).Before (L.queueItem b) →
      ¬ (L.queueItem b).Before (L.queueItem a) := by
    rintro a b (hlt | ⟨heq, hlt⟩) (hlt' | ⟨heq', hlt'⟩)
    · exact lt_asymm hlt hlt'
    · exact absurd heq'.symm hlt.ne
    · exact absurd heq.symm hlt'.ne
    · exact lt_asymm hlt hlt'
  have hfind := fun e => @List.find?_eq_some_iff_of_pairwise _ _ hasymm
    (fun e => decide (L.Startable projectId e)) _ L.pairwise_queue e
  rw [Option.map_eq_some_iff, firstStartable]
  constructor
  · rintro ⟨item, hitem, rfl, hstate, hfirst⟩
    obtain ⟨e, he, hstart, rfl⟩ := (hready item).mp ⟨hitem, hstate⟩
    refine ⟨e, (hfind e).mpr ⟨he, decide_eq_true hstart, fun other hother hstart' => ?_⟩, rfl⟩
    by_cases hid : other.1 = e.1
    · have hrow := (mem_queue hother).symm.trans (hid ▸ mem_queue he)
      exact .inl (Prod.ext hid (Option.some.inj hrow))
    · obtain ⟨hmem, hstate'⟩ := (hready _).mpr ⟨other, hother, of_decide_eq_true hstart', rfl⟩
      exact .inr (hfirst _ hmem hstate' hid)
  · rintro ⟨e, hfound, rfl⟩
    obtain ⟨he, hstart, hfirst⟩ := (hfind e).mp hfound
    obtain ⟨hmem, hstate⟩ := (hready _).mpr ⟨e, he, of_decide_eq_true hstart, rfl⟩
    refine ⟨L.queueItem e, hmem, rfl, hstate, fun other hother hstate' hid => ?_⟩
    obtain ⟨e', he', hstart', rfl⟩ := (hready other).mp ⟨hother, hstate'⟩
    rcases hfirst e' he' (decide_eq_true hstart') with rfl | hbefore
    · exact absurd rfl hid
    · exact hbefore

/-- The view of the queue, the next work and a claim agree on the task that comes next. -/
theorem schedulers_agree {limit : ℕ} {view : QueueView}
    (hview : L.queueView projectId limit = .ok view) (huntruncated : view.truncated = false)
    (hpaused : L.paused = none) (hproject : ∀ p ∈ projectId, L.projectPauses.lookup p = none)
    (taskId : TaskId) :
    (∀ item, item ∈ view.tasks ↔ ∃ row, L.tasks.lookup item.taskId = some row ∧
      inProject projectId row ∧ item = L.queueItem (item.taskId, row)) ∧
    ((∃ work, L.nextWork projectId = .ok work ∧ work.readyTask = some taskId) ↔
      view.FirstReady taskId) ∧
    (L.selection projectId = some taskId ↔ view.FirstReady taskId) ∧
    ∀ (sha : Sha256) (host : Host) (workerId : String),
      (∀ reply L', L.claim sha host workerId projectId none = .ok (reply, L') →
        (L.Selected host workerId taskId reply L' ↔ view.FirstReady taskId) ∧
          ((∀ t, ¬ view.FirstReady t) →
            L.Marked L' ∧ reply.status ≠ .claimed ∧ reply.status ≠ .blocked)) ∧
      ∀ e, L.claim sha host workerId projectId none = .error e → ∃ t, view.FirstReady t := by
  have hvalid : ∀ p ∈ projectId, isProjectId p := by
    simp only [queueView, bind_eq_ok_iff, require_eq_ok_iff] at hview
    exact hview.choose_spec.1
  have hclaim (sha : Sha256) (host : Host) (workerId : String) :
      L.claim sha host workerId projectId none = L.claimQueued host workerId projectId := by
    have hnot : ¬ (projectId.any fun p => (L.projectPauses.lookup p).isSome) := by
      rcases projectId with _ | p
      · simp
      · simp [hproject p rfl]
    unfold claim
    rw [require_of hvalid, ok_bind, require_of (by simp), ok_bind]
    simp only [hpaused, if_neg hnot]
  have hfirst : ∀ t, view.FirstReady t ↔ L.selection projectId = some t := by
    intro t
    rw [firstReady_iff hview huntruncated, selection_eq]
  have hnothing : (∀ t, ¬ view.FirstReady t) → L.selection projectId = none := by
    intro hnone
    rw [Option.eq_none_iff_forall_ne_some]
    exact fun t ht => hnone t ((hfirst t).mpr ht)
  obtain ⟨work, hwork, hready⟩ := nextWork_readyTask hvalid hpaused hproject
  rw [← selection_eq] at hready
  refine ⟨mem_tasks_iff hview huntruncated, ?_, (hfirst taskId).symm, fun sha host workerId => ?_⟩
  · rw [hfirst]
    constructor
    · rintro ⟨work', hwork', h⟩
      rw [hwork] at hwork'
      cases hwork'
      exact hready.symm.trans h
    · exact fun h => ⟨work, hwork, hready.trans h⟩
  rw [hclaim]
  refine ⟨fun reply L' h => ?_, fun e h => ?_⟩
  · obtain ⟨hsome, hnone⟩ := claimQueued_selected h
    refine ⟨⟨fun hs => ?_, fun hf => hsome taskId ((hfirst taskId).mp hf)⟩,
      fun h => hnone (hnothing h)⟩
    rw [hfirst]
    rcases hsel : L.selection projectId with _ | t
    · obtain ⟨-, hclaimed, hblocked⟩ := hnone hsel
      exact (hs.reports.2.elim hclaimed hblocked).elim
    · exact (hsome t hsel).reports.1.symm.trans hs.reports.1
  · by_contra hno
    rw [not_exists] at hno
    obtain ⟨answer, hok⟩ := claimQueued_of_selection_none host workerId (hnothing hno)
    rw [hok] at h
    cases h

def oneTask : Ledger := { Ledger.empty with
  tasks := (∅ : Table TaskId Task).put "fix" ⟨"r1", 1, 1, .planned,
    ⟨"fix", none, "repo", "/repo", ["src/a"], [], [], false, none, false, {}, 2, []⟩⟩ }

theorem schedulers_agree_oneTask :
    ∃ work, oneTask.nextWork none = .ok work ∧ work.readyTask = some "fix" := by
  have hview : oneTask.queueView none 100 = .ok _ := rfl
  refine (schedulers_agree hview rfl rfl (by simp) "fix").2.1.mpr ?_
  refine ⟨_, List.mem_singleton_self _, rfl, rfl, fun other hother _ hid => ?_⟩
  exact absurd (congrArg QueueItem.taskId (List.mem_singleton.mp hother)) hid

end Ledger

end OrchKit
