import OrchKit.Ledger.Kept
import OrchKit.Lifecycle.Board

/-! # The ledger refines the board

Read as a board, the ledger moves by the board's steps, as long as each of the three
transactions that do not look at the run they write finds it as the call that issues
them believes it to be.
-/

namespace OrchKit

open Except Program

namespace Ledger

def board (L : Ledger) : Board RunId TaskId WriterKey where
  run r := (L.runs.lookup r).map fun run => (run.taskId, run.state)
  task t := (L.tasks.lookup t).map fun task => (task.payload.writerKey, task.status)

def RunAt (L : Ledger) (runId : RunId) (taskId : TaskId) (states : List RunState) : Prop :=
  ∃ run, L.runs.lookup runId = some run ∧ run.taskId = taskId ∧ run.state ∈ states

variable {L L' : Ledger}

theorem board_run {r : RunId} {run : Run} (h : L.runs.lookup r = some run) :
    L.board.run r = some (run.taskId, run.state) := by
  simp only [board, h, Option.map_some]

theorem board_task {t : TaskId} {task : Task} (h : L.tasks.lookup t = some task) :
    L.board.task t = some (task.payload.writerKey, task.status) := by
  simp only [board, h, Option.map_some]

theorem board_run_eq {r : RunId} (h : L'.runs.lookup r = L.runs.lookup r) :
    L'.board.run r = L.board.run r := by
  simp only [board, h]

theorem board_task_eq {t : TaskId} (h : L'.tasks.lookup t = L.tasks.lookup t) :
    L'.board.task t = L.board.task t := by
  simp only [board, h]

theorem board_run_eq_some_iff {r : RunId} {t : TaskId} {s : RunState} :
    L.board.run r = some (t, s) ↔
      ∃ run, L.runs.lookup r = some run ∧ run.taskId = t ∧ run.state = s := by
  simp only [board, Option.map_eq_some_iff, Prod.mk.injEq]

theorem board_task_eq_some_iff {t : TaskId} {k : WriterKey} {u : TaskStatus} :
    L.board.task t = some (k, u) ↔
      ∃ task, L.tasks.lookup t = some task ∧ task.payload.writerKey = k ∧ task.status = u := by
  simp only [board, Option.map_eq_some_iff, Prod.mk.injEq]

theorem not_holds_of_keyFree {k : WriterKey} (h : L.KeyFree k) (r : RunId) :
    ¬ L.board.Holds r k := by
  rintro ⟨t, s, u, hr, hs, ht⟩
  obtain ⟨run, hrun, rfl, rfl⟩ := board_run_eq_some_iff.mp hr
  obtain ⟨task, htask, hkey, -⟩ := board_task_eq_some_iff.mp ht
  exact h r run task hrun hs htask hkey

end Ledger

open Ledger

variable {L L' : Ledger}

theorem TaskStep.queueStep {t : TaskId} (h : TaskStep (L.tasks.lookup t) (L'.tasks.lookup t)) :
    Board.QueueStep (L.board.task t) (L'.board.task t) := by
  simp only [board]
  generalize L.tasks.lookup t = row, L'.tasks.lookup t = row' at h
  cases h with
  | same => exact .same _
  | planned h => rw [Option.map_some, h]; exact .planned _
  | blocked h => exact .blocked _ h
  | cancelled h => exact .cancelled _ h

namespace Ledger

theorem Moved.boardStep {runId : RunId} {run run' : Run} {status : Option TaskStatus}
    (h : Moved L L' runId run run' status) (move : Move run.state run'.state status) :
    L.board.Step L'.board := by
  refine .move runId run.taskId run.state run'.state status (board_run h.found) move
    (h.taskId ▸ board_run h.moved) (fun r hr => board_run_eq (h.runs r hr)) ?_
    fun t ht => board_task_eq (h.tasks t ht)
  simp only [board, h.told]
  rcases L.tasks.lookup run.taskId with _ | task <;> cases status <;> rfl

theorem Started.boardStep {runId : RunId} {run : Run} {task : Task}
    (h : Started L L' runId run task) : L.board.Step L'.board := by
  refine .claim runId run.taskId task.payload.writerKey task.status ?_
    (board_task h.claimable.found)
    h.claimable.status (not_holds_of_keyFree h.claimable.free) ?_
    (fun r hr => board_run_eq (h.lookup_ne hr)) (board_task h.started)
    fun t ht => (h.others t ht).queueStep
  · simp only [board, h.fresh, Option.map_none]
  · rw [board_run h.lookup_self, h.state]

end Ledger

/-- A transaction that does not look at the state of the run it writes finds the one it is meant
for. -/
def InOrder (L : Ledger) : Op → Prop
  | .transaction (.verifyResult runId ..) =>
    (L.runs.lookup runId).all fun run => run.state = .verifying
  | .transaction (.capabilityCreateFailed runId ..) =>
    (L.runs.lookup runId).all fun run => run.state = .running
  | _ => True

instance (L : Ledger) (o : Op) : Decidable (InOrder L o) := by
  unfold InOrder
  split <;> infer_instance

/-- What a call carries over from an earlier read still fits the ledger. -/
def Grounded (L : Ledger) : Op → Prop
  | .transaction (.verifyResult runId run ..) =>
    ∃ row, L.runs.lookup runId = some row ∧ row.taskId = run.taskId
  | .transaction (.capabilityCreateFailed runId taskId _) =>
    ∃ row, L.runs.lookup runId = some row ∧ row.taskId = taskId
  | .transaction (.finalizePublication runId taskId ..) => L.RunAt runId taskId publishableStates
  | .insertPublication runId .. => ∃ taskId, L.RunAt runId taskId publishableStates
  | _ => True

/-- What an operation that is in order and grounded does to runs and tasks. -/
inductive Advance (L L' : Ledger) : Prop
  | queue (runs : L'.runs = L.runs)
      (tasks : ∀ t, TaskStep (L.tasks.lookup t) (L'.tasks.lookup t)) : Advance L L'
  | started {runId : RunId} {run : Run} {task : Task} (started : Started L L' runId run task) :
      Advance L L'
  | moved {runId : RunId} {run run' : Run} {status : Option TaskStatus}
      (moved : Moved L L' runId run run' status) (move : Move run.state run'.state status) :
      Advance L L'

theorem advance_of_eq (runs : L'.runs = L.runs) (tasks : L'.tasks = L.tasks) : Advance L L' :=
  .queue runs fun t => by rw [tasks]; exact .same _

theorem Effect.advance {sha : Sha256} {o : Op} (h : Effect sha L o L') (hok : InOrder L o)
    (hpre : Grounded L o) : Advance L L' := by
  cases h with
  | quiet tasks kept => exact advance_of_eq kept.runs tasks
  | queued tasks kept => exact .queue kept.runs tasks
  | started h => exact .started h
  | moved h move => exact .moved h move
  | accepted h state state' => exact .moved h (by rw [state, state']; exact .accept)
  | completed h state state' => exact .moved h (by rw [state, state']; exact .complete)
  | waiting h state => exact .moved h (by rw [state]; exact .askOwner)
  | approved h state => exact .moved h (by rw [state]; exact .approve)
  | result h =>
    obtain ⟨f, told, kind, ho, hw, -⟩ := verifyResult_spec h
    obtain ⟨row, hrow, htask⟩ := hpre
    rw [← htask] at hw
    refine .moved (hw.moved hrow) ?_
    simp only [InOrder, hrow, Option.all_some, decide_eq_true_eq] at hok
    rw [hok]
    cases ho with
    | review => exact .askReview
    | verified => exact .verify
    | failed => exact .fail
  | unclaimed h =>
    obtain ⟨hw, -⟩ := capabilityCreateFailed_spec h
    obtain ⟨row, hrow, htask⟩ := hpre
    rw [← htask] at hw
    refine .moved (hw.moved hrow) (.abort ?_)
    simp only [InOrder, hrow, Option.all_some, decide_eq_true_eq] at hok
    rw [hok]
    decide
  | finalized h =>
    obtain ⟨hw, -⟩ := finalizePublication_spec h
    obtain ⟨row, hrow, htask, hstate⟩ := hpre
    rw [← htask] at hw
    refine .moved (hw.moved hrow) ?_
    simp only [publishableStates, List.mem_cons, List.not_mem_nil, or_false] at hstate
    rcases hstate with hs | hs <;> rw [hs]
    · exact .complete
    · exact .completeAgain
  | deleted | inserted | updated => exact advance_of_eq rfl rfl

theorem Advance.boardStep (h : Advance L L') : L.board.Step L'.board := by
  cases h with
  | queue runs tasks =>
    exact .queue (fun r => board_run_eq (by rw [runs])) fun t => (tasks t).queueStep
  | started h => exact h.boardStep
  | moved h move => exact h.boardStep move

theorem Effect.boardStep {sha : Sha256} {o : Op} (h : Effect sha L o L') (hok : InOrder L o)
    (hpre : Grounded L o) : L.board.Step L'.board := (h.advance hok hpre).boardStep

/-- A publication row is only ever added by its insertion. -/
theorem Effect.publication_of_new {sha : Sha256} {o : Op} (h : Effect sha L o L') {r : RunId}
    (hn : L.publications.lookup r = none) (hs : (L'.publications.lookup r).isSome) :
    ∃ row seen, o = .insertPublication r row seen := by
  have kept : L'.publications = L.publications → False := fun h => by
    rw [h, hn] at hs
    cases hs
  have modified {f : Publication → Publication} {runId : RunId} :
      L'.publications = L.publications.modify runId f → False := fun h => by
    rw [h, Table.lookup_modify, hn] at hs
    split at hs <;> cases hs
  cases h with
  | quiet _ h | queued _ h => exact (kept h.publications).elim
  | started h => exact (kept h.publications).elim
  | moved _ _ _ _ h | accepted _ _ _ _ _ h | completed _ _ _ _ _ _ _ h | waiting _ _ h =>
    exact (kept h.publications).elim
  | approved _ _ _ _ _ h => exact (kept h).elim
  | result h => obtain ⟨_, _, _, -, -, -, h, -⟩ := verifyResult_spec h; exact (kept h).elim
  | unclaimed h => exact (kept (capabilityCreateFailed_spec h).2.2).elim
  | finalized h => exact (modified (finalizePublication_spec h).2.2).elim
  | deleted runId =>
    simp only [Table.lookup_delete, hn] at hs
    split at hs <;> cases hs
  | inserted runId row seen =>
    simp only [Table.lookup_put] at hs
    split at hs
    next h => exact ⟨row, seen, by rw [h]⟩
    next => rw [hn] at hs; cases hs
  | updated => exact (modified rfl).elim

end OrchKit
