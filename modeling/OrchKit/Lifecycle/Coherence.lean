import OrchKit.Lifecycle.Sequence

/-! # Tasks and their runs

Along a sequence of commands tasks and runs stay coherent. The attempts of a task are
numbered without gap or repeat and stay within its budget, only its latest run works
on it, and it is done just when that run is complete.
-/

namespace OrchKit

open Program Ledger

namespace Ledger

/-- The runs of each task are numbered `1`, `2` and so on, as many as there are. -/
structure Numbered (L : Ledger) : Prop where
  range : ∀ t k, (∃ r run, L.runs.lookup r = some run ∧ run.taskId = t ∧ run.attempt = k) ↔
    1 ≤ k ∧ k ≤ L.attempts t
  distinct : ∀ r r' run run', L.runs.lookup r = some run → L.runs.lookup r' = some run' →
    run.taskId = run'.taskId → run.attempt = run'.attempt → r = r'

def Latest (L : Ledger) (r : RunId) (run : Run) : Prop :=
  L.runs.lookup r = some run ∧ ∀ r' run', L.runs.lookup r' = some run' →
    run'.taskId = run.taskId → run'.attempt ≤ run.attempt

/-- Tasks and runs fit together. -/
structure Coherent (L : Ledger) : Prop where
  numbered : L.Numbered
  budget : ∀ t task, L.tasks.lookup t = some task → L.attempts t ≤ task.payload.maxAttempts
  done_iff : ∀ t task, L.tasks.lookup t = some task →
    (task.status = .done ↔ ∃ r run, L.Latest r run ∧ run.taskId = t ∧ run.state = .complete)
  cancelled : ∀ t task, L.tasks.lookup t = some task → task.status = .cancelled →
    ∀ r run, L.runs.lookup r = some run → run.taskId = t → run.state ∉ writerLockRunStates
  working : ∀ r run, L.runs.lookup r = some run → run.state ∈ writerLockRunStates →
    L.Latest r run ∧ ∃ task, L.tasks.lookup run.taskId = some task ∧ Owes run.state task.status

/-- A state in which a run is at work or has done its task. -/
def Engaged (s : RunState) : Prop := s ∈ writerLockRunStates ∨ s = .complete

/-- What operations keep, in terms of how many runs a task has. -/
structure Tracked (L : Ledger) : Prop where
  numbered : L.Numbered
  budget : ∀ t task, L.tasks.lookup t = some task → L.attempts t ≤ task.payload.maxAttempts
  current : ∀ r run, L.runs.lookup r = some run → Engaged run.state →
    run.attempt = L.attempts run.taskId
  finished : ∀ t task, L.tasks.lookup t = some task → task.status = .done →
    ∃ r run, L.runs.lookup r = some run ∧ run.taskId = t ∧ run.state = .complete

variable {L L' : Ledger} {r : RunId} {run : Run}

theorem Numbered.attempt_le (h : L.Numbered) (hr : L.runs.lookup r = some run) :
    run.attempt ≤ L.attempts run.taskId :=
  ((h.range run.taskId run.attempt).mp ⟨r, run, hr, rfl, rfl⟩).2

theorem Numbered.latest_iff (h : L.Numbered) (hr : L.runs.lookup r = some run) :
    L.Latest r run ↔ run.attempt = L.attempts run.taskId := by
  constructor
  · rintro ⟨-, hmax⟩
    have hle := h.attempt_le hr
    have hpos := ((h.range run.taskId run.attempt).mp ⟨r, run, hr, rfl, rfl⟩).1
    obtain ⟨r', run', hr', ht', ha'⟩ :=
      (h.range run.taskId (L.attempts run.taskId)).mpr ⟨by omega, le_refl _⟩
    have := hmax r' run' hr' ht'
    omega
  · intro ha
    refine ⟨hr, fun r' run' hr' ht' => ?_⟩
    rw [ha, ← ht']
    exact h.attempt_le hr'

theorem Tracked.coherent (hL : L.board.Sound) (h : L.Tracked) : L.Coherent := by
  have owed : ∀ r run, L.runs.lookup r = some run →
      ∃ task, L.tasks.lookup run.taskId = some task ∧ Owes run.state task.status := by
    intro r run hr
    obtain ⟨k, u, ht, ho⟩ := hL.known r _ _ (board_run hr)
    obtain ⟨task, htask, -, rfl⟩ := board_task_eq_some_iff.mp ht
    exact ⟨task, htask, ho⟩
  refine ⟨h.numbered, h.budget, fun t task ht => ⟨fun hs => ?_, ?_⟩, ?_, fun r run hr hs => ?_⟩
  · obtain ⟨r, run, hr, hid, hstate⟩ := h.finished t task ht hs
    exact ⟨r, run, (h.numbered.latest_iff hr).mpr (h.current r run hr (.inr hstate)), hid, hstate⟩
  · rintro ⟨r, run, ⟨hr, -⟩, rfl, hstate⟩
    obtain ⟨task', ht', ho⟩ := owed r run hr
    rw [ht] at ht'
    cases ht'
    rw [hstate] at ho
    exact ho
  · rintro t task ht hs r run hr rfl hlock
    obtain ⟨task', ht', ho⟩ := owed r run hr
    rw [ht] at ht'
    cases ht'
    exact ho.not_settled hlock (by rw [hs]; decide)
  · exact ⟨(h.numbered.latest_iff hr).mpr (h.current r run hr (.inl hs)), owed r run hr⟩

/-! ### What an operation keeps -/

theorem numbered_of_same (hs : RunsStay L L') (hn : NoneNew L L')
    (ha : ∀ t, L'.attempts t = L.attempts t) (h : L.Numbered) : L'.Numbered := by
  have back : ∀ r run', L'.runs.lookup r = some run' → ∃ run, L.runs.lookup r = some run ∧
      run'.taskId = run.taskId ∧ run'.attempt = run.attempt := by
    intro r run' hr'
    obtain ⟨run, hr⟩ := hn.exists hr'
    obtain ⟨run'', hr'', hid, hat⟩ := hs r run hr
    rw [hr'] at hr''
    cases hr''
    exact ⟨run, hr, hid, hat⟩
  constructor
  · intro t k
    rw [ha, ← h.range t k]
    constructor
    · rintro ⟨r, run', hr', rfl, rfl⟩
      obtain ⟨run, hr, hid, hat⟩ := back r run' hr'
      exact ⟨r, run, hr, hid.symm, hat.symm⟩
    · rintro ⟨r, run, hr, rfl, rfl⟩
      obtain ⟨run', hr', hid, hat⟩ := hs r run hr
      exact ⟨r, run', hr', hid, hat⟩
  · intro r₁ r₂ run₁ run₂ h₁ h₂ hid hat
    obtain ⟨_, h₁', hid₁, hat₁⟩ := back r₁ run₁ h₁
    obtain ⟨_, h₂', hid₂, hat₂⟩ := back r₂ run₂ h₂
    exact h.distinct r₁ r₂ _ _ h₁' h₂' (by rw [← hid₁, ← hid₂, hid]) (by rw [← hat₁, ← hat₂, hat])

theorem attempts_of_runs_eq (h : L'.runs = L.runs) (t : TaskId) : L'.attempts t = L.attempts t := by
  rw [attempts, h, attempts]

theorem attempts_eq_zero (hL : L.board.Sound) (h : L.Numbered) {t : TaskId}
    (ht : L.tasks.lookup t = none) : L.attempts t = 0 := by
  by_contra hpos
  obtain ⟨r, run, hr, rfl, -⟩ := (h.range t 1).mpr ⟨le_refl 1, by omega⟩
  obtain ⟨k, u, htask, -⟩ := hL.known r _ _ (board_run hr)
  obtain ⟨task, htask, -⟩ := board_task_eq_some_iff.mp htask
  rw [ht] at htask
  cases htask

theorem tracked_of_queue (hL : L.board.Sound) (h : L.Tracked) (runs : L'.runs = L.runs)
    (tasks : ∀ t, TaskStep (L.tasks.lookup t) (L'.tasks.lookup t)) : L'.Tracked := by
  have ha := attempts_of_runs_eq runs
  refine ⟨numbered_of_same (runsStay_of_eq runs) (noneNew_of_eq runs) ha h.numbered,
    fun t task' ht' => ?_, fun r run hr hs => ?_, fun t task' ht' hs => ?_⟩
  · rw [ha]
    rcases ht : L.tasks.lookup t with _ | task
    · rw [attempts_eq_zero hL h.numbered ht]
      exact Nat.zero_le _
    · obtain ⟨task'', ht'', hp⟩ := (tasks t).payload ht
      rw [ht'] at ht''
      cases ht''
      rw [hp]
      exact h.budget t task ht
  · rw [runs] at hr
    rw [ha]
    exact h.current r run hr hs
  · -- a step of the queue makes no task done
    rw [runs]
    exact h.finished t task' ((tasks t).of_done ht' hs) hs

theorem Moved.tracked {runId : RunId} {run run' : Run} {status : Option TaskStatus}
    (hm : Moved L L' runId run run' status) (move : Move run.state run'.state status)
    (h : L.Tracked) : L'.Tracked := by
  refine ⟨numbered_of_same hm.runsStay hm.noneNew hm.attempts h.numbered,
    fun t task' ht' => ?_, fun r row hr hs => ?_, fun t task' ht' hs => ?_⟩
  · rw [hm.attempts]
    rcases ht : L.tasks.lookup t with _ | task
    · by_cases hid : t = run.taskId
      · subst hid
        rw [hm.told, ht] at ht'
        cases ht'
      · rw [hm.tasks t hid, ht] at ht'
        cases ht'
    · rw [hm.tasksKept.payload ht ht']
      exact h.budget t task ht
  · rw [hm.attempts]
    by_cases hid : r = runId
    · subst hid
      rw [hm.moved] at hr
      cases hr
      rw [hm.attempt, hm.taskId]
      exact h.current r run hm.found move.source
    · rw [hm.runs r hid] at hr
      exact h.current r row hr hs
  · -- a complete run stays complete, and only a complete run makes its task done
    have stays : (∃ task, L.tasks.lookup t = some task ∧ task.status = .done) →
        ∃ r row, L'.runs.lookup r = some row ∧ row.taskId = t ∧ row.state = .complete := by
      rintro ⟨task, ht, hdone⟩
      obtain ⟨r, row, hr, hid, hstate⟩ := h.finished t task ht hdone
      by_cases hrun : r = runId
      · subst hrun
        rw [hm.found] at hr
        cases hr
        exact ⟨r, run', hm.moved, hm.taskId.trans hid,
          (move.ended (by rw [hstate]; decide)).trans hstate⟩
      · exact ⟨r, row, (hm.runs r hrun).trans hr, hid, hstate⟩
    by_cases hid : t = run.taskId
    · subst hid
      rw [hm.told] at ht'
      obtain ⟨task, ht, rfl⟩ := Option.map_eq_some_iff.mp ht'
      cases status with
      | none => exact stays ⟨task, ht, hs⟩
      | some u =>
        simp only [Option.getD_some] at hs
        subst hs
        refine ⟨runId, run', hm.moved, hm.taskId, ?_⟩
        generalize run.state = s, run'.state = s' at move ⊢
        cases move <;> rfl
    · rw [hm.tasks t hid] at ht'
      exact stays ⟨task', ht', hs⟩

theorem Started.attempts {runId : RunId} {task : Task} (hs : Started L L' runId run task)
    (t : TaskId) : L'.attempts t = L.attempts t + if run.taskId = t then 1 else 0 := by
  rw [Ledger.attempts, hs.runs, Table.count_put_of_lookup_none hs.fresh, Ledger.attempts]
  simp only [decide_eq_true_eq]

theorem Started.idle {runId : RunId} {task : Task} (hs : Started L L' runId run task)
    (hL : L.board.Sound) {row : Run} (hr : L.runs.lookup r = some row)
    (ht : row.taskId = run.taskId) : ¬ Engaged row.state := by
  intro he
  obtain ⟨k, u, htask, ho⟩ := hL.known r _ _ (board_run hr)
  rw [ht, board_task hs.claimable.found] at htask
  cases htask
  exact ho.not_idle he hs.claimable.status

theorem Started.numbered {runId : RunId} {task : Task} (hs : Started L L' runId run task)
    (h : L.Numbered) : L'.Numbered := by
  have lookup : ∀ r row, L'.runs.lookup r = some row →
      (r = runId ∧ row = run) ∨ L.runs.lookup r = some row := by
    intro r row hr
    by_cases hid : r = runId
    · subst hid
      rw [hs.lookup_self] at hr
      cases hr
      exact .inl ⟨rfl, rfl⟩
    · exact .inr ((hs.lookup_ne hid).symm.trans hr)
  constructor
  · intro t k
    rw [hs.attempts]
    constructor
    · rintro ⟨r, row, hr, rfl, rfl⟩
      rcases lookup r row hr with ⟨-, rfl⟩ | hr
      · rw [if_pos rfl, hs.attempt]
        omega
      · have := (h.range row.taskId row.attempt).mp ⟨r, row, hr, rfl, rfl⟩
        omega
    · rintro ⟨hpos, hle⟩
      by_cases hk : k ≤ L.attempts t
      · obtain ⟨r, row, hr, hid, hat⟩ := (h.range t k).mpr ⟨hpos, hk⟩
        obtain ⟨row', hr', hid', hat'⟩ := hs.runsStay r row hr
        exact ⟨r, row', hr', hid'.trans hid, hat'.trans hat⟩
      · split at hle
        next hid =>
          refine ⟨runId, run, hs.lookup_self, hid, ?_⟩
          rw [hs.attempt, hid]
          omega
        next => omega
  · intro r₁ r₂ run₁ run₂ h₁ h₂ hid hat
    -- the new run comes after all earlier runs of its task
    have newer : ∀ r row, L.runs.lookup r = some row → row.taskId = run.taskId →
        row.attempt ≠ run.attempt := by
      intro r row hr ht
      have := h.attempt_le hr
      rw [hs.attempt, ← ht]
      omega
    rcases lookup r₁ run₁ h₁ with ⟨rfl, rfl⟩ | h₁ <;> rcases lookup r₂ run₂ h₂ with ⟨rfl, rfl⟩ | h₂
    · rfl
    · exact absurd hat.symm (newer r₂ run₂ h₂ hid.symm)
    · exact absurd hat (newer r₁ run₁ h₁ hid)
    · exact h.distinct r₁ r₂ run₁ run₂ h₁ h₂ hid hat

theorem Started.tracked {runId : RunId} {task : Task} (hs : Started L L' runId run task)
    (hL : L.board.Sound) (h : L.Tracked) : L'.Tracked := by
  refine ⟨hs.numbered h.numbered, fun t task' ht' => ?_, fun r row hr he => ?_,
    fun t task' ht' hdone => ?_⟩
  · rw [hs.attempts]
    split
    next hid =>
      subst hid
      rw [hs.started] at ht'
      cases ht'
      exact hs.claimable.budget
    next hid =>
      rcases ht : L.tasks.lookup t with _ | row
      · rw [attempts_eq_zero hL h.numbered ht]
        exact Nat.zero_le _
      · rw [hs.tasksKept.payload ht ht']
        exact h.budget t row ht
  · rw [hs.attempts]
    by_cases hid : r = runId
    · subst hid
      rw [hs.lookup_self] at hr
      cases hr
      rw [if_pos rfl, hs.attempt]
    · rw [hs.lookup_ne hid] at hr
      rw [if_neg fun ht => hs.idle hL hr ht.symm he]
      exact h.current r row hr he
  · by_cases hid : t = run.taskId
    · subst hid
      rw [hs.started] at ht'
      cases ht'
      cases hdone
    · obtain ⟨r, row, hr, hrow, hstate⟩ :=
        h.finished t task' ((hs.others t hid).of_done ht' hdone) hdone
      have hne : r ≠ runId := by
        rintro rfl
        rw [hs.fresh] at hr
        cases hr
      exact ⟨r, row, (hs.lookup_ne hne).trans hr, hrow, hstate⟩

end Ledger

theorem Advance.tracked {L L' : Ledger} (h : Advance L L') (hL : L.board.Sound)
    (ht : L.Tracked) : L'.Tracked := by
  cases h with
  | queue runs tasks => exact tracked_of_queue hL ht runs tasks
  | started h => exact h.tracked hL ht
  | moved h move => exact h.tracked move ht

theorem tracked_empty : Ledger.empty.Tracked where
  numbered :=
    { range := fun t k => by
        constructor
        · rintro ⟨r, run, h, -⟩
          cases h
        · rintro ⟨hpos, hle⟩
          simp [attempts, Ledger.empty, Table.count, Table.rows] at hle
          omega
      distinct := fun _ _ _ _ h => by cases h }
  budget _ _ h := by cases h
  current _ _ h := by cases h
  finished _ _ h := by cases h

/-- After every sequence of commands tasks and runs are coherent, and tasks are under the payload
they had at any earlier point of it. -/
theorem coherent_session (sha : Sha256) (cs ds : List (Command × List Host)) :
    (session (ledgerSemantics sha) Command.script (cs ++ ds) Ledger.empty).Coherent ∧
      TasksKept (session (ledgerSemantics sha) Command.script cs Ledger.empty)
        (session (ledgerSemantics sha) Command.script (cs ++ ds) Ledger.empty) := by
  have tracked (es : List (Command × List Host)) :
      Orderly (session (ledgerSemantics sha) Command.script es Ledger.empty) ∧
        (session (ledgerSemantics sha) Command.script es Ledger.empty).Tracked :=
    session_invariant (fun _ _ _ hL ht h hok hpre => (h.advance hok hpre).tracked hL.sound ht)
      es orderly_empty tracked_empty
  refine ⟨(tracked _).2.coherent (tracked _).1.sound, ?_⟩
  rw [session_append]
  refine (session_invariant (fun _ _ _ _ hk h _ _ => ?_) ds (tracked cs).1 (fun id task ht => ?_)).2
  · exact fun id task ht => by
      obtain ⟨task', ht', hp⟩ := hk id task ht
      obtain ⟨task'', ht'', hp'⟩ := h.tasksKept id task' ht'
      exact ⟨task'', ht'', hp'.trans hp⟩
  · exact ⟨task, ht, rfl⟩

end OrchKit
