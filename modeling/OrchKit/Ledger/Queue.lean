import OrchKit.Ledger.Outside

/-! # Queue commands

Loading a plan, pausing and resuming, and cancelling a task. Each is one
transaction: it answers and leaves a new ledger, or raises and leaves none.
-/

namespace OrchKit

open Except

/-- `re.fullmatch(r"[A-Za-z0-9._-]+", s)`. -/
def isIdentifier (s : String) : Bool :=
  !s.isEmpty && s.toList.all fun c => c.isAlphanum || c == '.' || c == '_' || c == '-'

/-- `re.fullmatch(r"[A-Za-z0-9._-]{1,160}", s)`. -/
def isProjectId (s : String) : Bool := isIdentifier s && s.length ≤ 160

/-- `str.isspace` of one character. -/
def isSpace (c : Char) : Bool :=
  let n := c.toNat
  (9 ≤ n && n ≤ 13) || (28 ≤ n && n ≤ 32) || n ∈ [0x85, 0xa0, 0x1680] ||
    (0x2000 ≤ n && n ≤ 0x200a) || n ∈ [0x2028, 0x2029, 0x202f, 0x205f, 0x3000]

def strip (s : String) : String :=
  String.ofList ((s.toList.dropWhile isSpace).rdropWhile isSpace)

/-- `s[:limit]`. -/
def truncate (limit : ℕ) (s : String) : String := String.ofList (s.toList.take limit)

namespace Ledger

def queue (L : Ledger) : List (TaskId × Task) :=
  (L.tasks.entries.map fun e => (e.1, e.2)).insertionSort fun a b =>
    a.2.queueSeq < b.2.queueSeq ∨ (a.2.queueSeq = b.2.queueSeq ∧ a.1 ≤ b.1)

/-- `COALESCE(MAX(queue_seq),0)`. -/
def maxQueueSeq (L : Ledger) : ℕ := (L.tasks.rows.map Task.queueSeq).foldr max 0

/-- Insert the tasks of a plan that are not there yet, in plan order. -/
def insertTasks (revision : String) : ℕ → ℕ → List TaskPayload → Ledger → Ledger × ℕ
  | _, _, [], L => (L, 0)
  | ordinal, nextQueue, payload :: payloads, L =>
    match L.tasks.lookup payload.id with
    | some _ => insertTasks revision (ordinal + 1) nextQueue payloads L
    | none =>
      let task : Task := ⟨revision, ordinal, nextQueue + 1, .planned, payload⟩
      let rest := insertTasks revision (ordinal + 1) (nextQueue + 1) payloads
        { L with tasks := L.tasks.put payload.id task }
      (rest.1, rest.2 + 1)

/-- `load_plan` on a plan that was read, validated and prepared; its task ids are distinct. -/
def loadPlan (revision : String) (digest : Hash) (tasks : List TaskPayload) (L : Ledger) :
    Checked (Reply × Ledger) := do
  require (∀ d, L.plans.lookup revision = some d → d = digest)
    (.value "plan_revision_digest_conflict")
  noneOf (tasks.flatMap fun item => item.dependencies.filter fun dep =>
      dep ∉ tasks.map TaskPayload.id ∧ L.tasks.lookup dep = none)
    fun dep => .value ("invalid_dependency:" ++ dep)
  noneOf (tasks.filter fun item =>
      (L.tasks.lookup item.id).any fun task => task.planRevision ≠ revision)
    fun item => .value ("task_id_conflict:" ++ item.id)
  let plans := if (L.plans.lookup revision).isSome then L.plans else L.plans.put revision digest
  let inserted := insertTasks revision 0 L.maxQueueSeq tasks { L with plans := plans }
  return ({ status := .ok }, inserted.1.record (.planLoaded revision digest inserted.2))

def pauseProject (projectId : ProjectId) (reason : String) (L : Ledger) :
    Checked (Reply × Ledger) := do
  require (isProjectId projectId) (.value "invalid_project_id")
  require (strip reason ≠ "") (.value "pause_reason_required")
  require (L.tasks.rows.any (·.payload.projectId = some projectId))
    (.value "unknown_project_queue")
  return ({ status := .projectPaused, projectId := projectId },
    { L with projectPauses := L.projectPauses.put projectId (truncate 500 (strip reason)) }.record
      (.projectPaused projectId (truncate 500 (strip reason))))

def resumeProject (projectId : ProjectId) (L : Ledger) : Checked (Reply × Ledger) := do
  require (isProjectId projectId) (.value "invalid_project_id")
  match L.projectPauses.lookup projectId with
  | none => return ({ status := .projectResumed, projectId := projectId }, L)
  | some _ =>
    return ({ status := .projectResumed, projectId := projectId },
      { L with projectPauses := L.projectPauses.delete projectId }.record
        (.projectResumed projectId))

def recordProjectRemoved (projectId : ProjectId) (L : Ledger) : Checked (Reply × Ledger) := do
  require (isProjectId projectId) (.value "invalid_project_id")
  return ({ status := .recorded, projectId := projectId },
    { L with projectPauses := L.projectPauses.delete projectId }.record
      (.projectDeregistered projectId (L.projectPauses.lookup projectId).isSome))

/-- The active runs of a task, the one started last in front. -/
def activeRunsOf (L : Ledger) (taskId : TaskId) : List RunId :=
  ((L.runs.entries.filter fun e => e.2.taskId = taskId ∧ e.2.state ∈ activeRunStates).insertionSort
    fun a b => b.2.startedAt ≤ a.2.startedAt).map Sigma.fst

def cancelTask (taskId : TaskId) (reason : String) (L : Ledger) : Checked (Reply × Ledger) := do
  require (isIdentifier taskId) (.value "invalid_task_id")
  require (strip reason ≠ "") (.value "cancel_reason_required")
  let task ← ofOption (L.tasks.lookup taskId) (.value "unknown_task")
  if task.status = .cancelled then
    return ({ status := .cancelled, taskId := taskId }, L)
  noneOf (L.activeRunsOf taskId) fun runId => .value ("task_active:" ++ runId)
  require (task.status ∈ readyTaskStates ++ [.blocked]) (.value "task_not_cancellable")
  return ({ status := .cancelled, taskId := taskId },
    (L.setStatus taskId .cancelled).record (.taskCancelled (truncate 500 (strip reason))) taskId)

end Ledger

end OrchKit
