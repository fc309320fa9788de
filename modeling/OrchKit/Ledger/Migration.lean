import Mathlib.Algebra.Group.Int.Defs
import OrchKit.Data.Table
import OrchKit.Planning.Definition

/-! # The migration of older ledgers

A ledger says which version it is of, and one that is older is brought up to date when it is opened,
in a transaction of its own. The version is read before that transaction begins, so that two
processes which open the ledger at once may both migrate it. A table that is missing is made first,
and is one without rows; in a column that is missing nothing is stored.
-/

namespace OrchKit.Migration

open Except Json

/-! ### The ledger as it is stored -/

/-- A row of `tasks`. -/
structure TaskRow where
  taskId : TaskId
  planRevision : String
  ordinal : ℤ
  projectId : Option String
  writerKey : Option String
  queueSeq : Option ℤ
  status : String
  payloadJson : String
  updatedAt : String
  deriving DecidableEq

def TaskRow.set (row : TaskRow) (projectId : Option String) (writerKey : String) (queueSeq : ℤ) :
    TaskRow :=
  { row with projectId, writerKey := some writerKey, queueSeq := some queueSeq }

/-- A row of `schema_migrations`. -/
structure Applied where
  fromVersion : ℤ
  appliedAt : String
  details : String
  deriving DecidableEq

/-- The tasks in the order of their rows, the runs with the heads of their claims, and the rest,
which no migration has anything to do with. -/
structure Stored (ρ σ : Type) where
  version : ℤ
  taskColumns : List String
  tasks : List TaskRow
  runColumns : List String
  runs : List (ρ × Option String)
  indexes : List String
  migrations : Table ℤ Applied
  rest : σ
  keyed : (tasks.map TaskRow.taskId).Nodup

variable {ρ σ : Type}

/-- `UPDATE tasks SET project_id=?,writer_key=?,queue_seq=? WHERE task_id=?`. -/
def Stored.updateTask (s : Stored ρ σ) (taskId : TaskId) (projectId : Option String)
    (writerKey : String) (queueSeq : ℤ) : Stored ρ σ :=
  { s with
    tasks := s.tasks.map fun row =>
      if row.taskId = taskId then row.set projectId writerKey queueSeq else row
    keyed := by
      have hids : (TaskRow.taskId ∘ fun row : TaskRow =>
          if row.taskId = taskId then row.set projectId writerKey queueSeq else row) =
          TaskRow.taskId := by
        funext row
        simp only [Function.comp_apply]
        split <;> rfl
      rw [List.map_map, hids]
      exact s.keyed }

/-! ### The statements of a migration -/

def stateSchemaVersion : ℤ := 4

inductive Statement
  | schema
  | begin
  | alterTasks (column : String)
  | select
  | updateTask (taskId : TaskId)
  | alterRuns
  | index (name : String)
  | record
  | version
  | commit
  deriving DecidableEq

/-- The standard functions that every process has: `json.loads` of a payload, and what becomes of a
value that is bound to a column of texts. -/
structure Reader where
  loads : String → Checked Value
  bind : Value → Checked (Option String)

/-- A process that opens the ledger: its clock, the machine it looks at workspaces on, and the
statements that fail for it. -/
structure Process where
  now : String
  site : Planning.Site
  fails : Statement → Bool

abbrev Step (ρ σ : Type) := Statement × (Stored ρ σ → Checked (Stored ρ σ))

def operationalError : Exn := .other "OperationalError" "disk I/O error"

/-- The statements one after another, up to the first that fails, which changes nothing itself. -/
def execute (fails : Statement → Bool) : List (Step ρ σ) → Stored ρ σ → Checked Unit × Stored ρ σ
  | [], s => (.ok (), s)
  | (name, f) :: steps, s =>
    if fails name then (.error operationalError, s)
    else match f s with
      | .error e => (.error e, s)
      | .ok s => execute fails steps s

section Statements

variable (py : Reader) (p : Process)

def taskColumnNames : List String := ["project_id", "writer_key", "queue_seq"]

def addTaskColumn (column : String) : Step ρ σ :=
  (.alterTasks column, fun s => .ok { s with taskColumns := s.taskColumns ++ [column] })

/-- The next number in the queue, after one that has been given. -/
def nextSeq (last : ℤ) (row : TaskRow) : ℤ := max (last + 1) (row.queueSeq.getD 0)

/-- A value that `get` is called on. -/
def fieldsOf : Value → Checked Fields
  | .obj fields => .ok fields
  | _ => .error (.other "AttributeError" "object has no attribute 'get'")

/-- The project a row has, or else what its payload has in the place of one. -/
def projectIdOf (row : TaskRow) (payload : Value) : Checked (String ⊕ Value) :=
  match row.projectId with
  | some projectId => .ok (.inl projectId)
  | none => do
    let fields ← fieldsOf payload
    return .inr (get fields "project_id")

def madeWriterKey (payload : Value) : Checked WriterKey := do
  let fields ← fieldsOf payload
  Planning.taskWriterKey p.site fields

def writerKeyOf (row : TaskRow) (payload : Value) : Checked WriterKey :=
  match row.writerKey with
  | some writerKey => if writerKey = "" then madeWriterKey p payload else .ok writerKey
  | none => madeWriterKey p payload

def bound : String ⊕ Value → Checked (Option String)
  | .inl projectId => .ok (some projectId)
  | .inr value => py.bind value

/-- What a row is to have in the columns that it may not have yet. -/
def rowValues (row : TaskRow) : Checked (Option String × WriterKey) := do
  let payload ← py.loads row.payloadJson
  let found ← projectIdOf row payload
  let writerKey ← writerKeyOf p row payload
  let projectId ← bound py found
  return (projectId, writerKey)

def updateRow (row : TaskRow) (queueSeq : ℤ) (s : Stored ρ σ) : Checked (Stored ρ σ) := do
  let values ← rowValues py p row
  require (queueSeq < 2 ^ 63) (.other "OverflowError" "Python int too large for SQLite INTEGER")
  return s.updateTask row.taskId values.1 values.2 queueSeq

/-- The updates of the rows that were selected, each with the next number. -/
def updates : ℤ → List TaskRow → List (Step ρ σ)
  | _, [] => []
  | last, row :: rows =>
    (.updateTask row.taskId, updateRow py p row (nextSeq last row)) :: updates
      (nextSeq last row) rows

def addClaimGitHead (s : Stored ρ σ) : List (Step ρ σ) :=
  if "claim_git_head" ∈ s.runColumns then []
  else [(.alterRuns, fun s => .ok { s with runColumns := s.runColumns ++ ["claim_git_head"] })]

def createIndex (name : String) : Step ρ σ :=
  (.index name, fun s => .ok { s with
    indexes := if name ∈ s.indexes then s.indexes else s.indexes ++ [name] })

def upgradeDetails (migrated : ℕ) : String :=
  String.ofList ((object [("kind", text "transactional_upgrade"), ("tasks_migrated", nat migrated),
    ("claim_git_head_added", .bool true), ("target_version", nat 4)]).write fun _ => [])

/-- `INSERT OR REPLACE INTO schema_migrations`. -/
def recordUpgrade (version : ℤ) (migrated : ℕ) : Step ρ σ :=
  let applied : Applied := ⟨version, p.now, upgradeDetails migrated⟩
  (.record, fun s => .ok { s with migrations := s.migrations.put stateSchemaVersion applied })

def setVersion : Step ρ σ := (.version, fun s => .ok { s with version := stateSchemaVersion })

/-- The part of the migration that concerns tasks, for versions before the third. -/
def migrateTasks (s : Stored ρ σ) : List (Step ρ σ) :=
  ((taskColumnNames.filter fun column => column ∉ s.taskColumns).map addTaskColumn) ++
    (.select, .ok) :: updates py p 0 s.tasks

def upgradeSteps (version : ℤ) (s : Stored ρ σ) : List (Step ρ σ) :=
  (if version < 3 then migrateTasks py p s else []) ++ addClaimGitHead s ++
    [createIndex "idx_tasks_queue", createIndex "idx_runs_state_task",
      recordUpgrade p version (if version < 3 then s.tasks.length else 0), setVersion]

/-- The transaction of a process that has read this version; what it does is rolled back unless it
is committed. -/
def upgrade (version : ℤ) (s : Stored ρ σ) : Checked Unit × Stored ρ σ :=
  if p.fails .begin then (.error operationalError, s)
  else match execute p.fails (upgradeSteps py p version s) s with
    | (.error e, _) => (.error e, s)
    | (.ok (), after) =>
      if p.fails .commit then (.error operationalError, s) else (.ok (), after)

def observedDetails : String :=
  String.ofList ((object [("kind", text "observed_existing_schema"),
    ("target_version", nat 4)]).write fun _ => [])

/-- `INSERT OR IGNORE INTO schema_migrations`. -/
def recordObserved : Step ρ σ :=
  let applied : Applied := ⟨stateSchemaVersion, p.now, observedDetails⟩
  (.record, fun s => if s.migrations.lookup stateSchemaVersion = none then
      .ok { s with migrations := s.migrations.put stateSchemaVersion applied }
    else .ok s)

/-- `_initialize`, with the ledger as it is when its version is read, and as it is afterwards, when
this process can write. -/
def initializeLedger (read s : Stored ρ σ) : Checked Unit × Stored ρ σ :=
  if p.fails .schema then (.error operationalError, s)
  else if read.version < 0 ∨ stateSchemaVersion < read.version then
    (.error (.value ("unsupported_state_schema:" ++ toString read.version)), s)
  else if read.version < stateSchemaVersion then upgrade py p read.version s
  else execute p.fails [createIndex "idx_tasks_queue", createIndex "idx_runs_state_task",
    recordObserved p] s

end Statements

/-! ### Runs of statements -/

section Execute

variable {fails : Statement → Bool} {s s' : Stored ρ σ}

theorem execute_cons_ok {name : Statement} {f : Stored ρ σ → Checked (Stored ρ σ)}
    {steps : List (Step ρ σ)} :
    execute fails ((name, f) :: steps) s = (.ok (), s') ↔
      ¬ fails name ∧ ∃ middle, f s = .ok middle ∧ execute fails steps middle = (.ok (), s') := by
  rw [execute]
  split
  next h => simp [h]
  next h =>
    cases hf : f s with
    | error e => simp
    | ok middle => simp [h]

theorem execute_append_ok {steps steps' : List (Step ρ σ)} :
    execute fails (steps ++ steps') s = (.ok (), s') ↔
      ∃ middle, execute fails steps s = (.ok (), middle) ∧
        execute fails steps' middle = (.ok (), s') := by
  induction steps generalizing s with
  | nil => simp [execute]
  | cons step steps ih =>
    obtain ⟨name, f⟩ := step
    rw [List.cons_append, execute_cons_ok]
    constructor
    · rintro ⟨hname, first, hf, hrest⟩
      obtain ⟨middle, hsteps, hsteps'⟩ := ih.mp hrest
      exact ⟨middle, execute_cons_ok.mpr ⟨hname, first, hf, hsteps⟩, hsteps'⟩
    · rintro ⟨middle, hsteps, hsteps'⟩
      obtain ⟨hname, first, hf, hrest⟩ := execute_cons_ok.mp hsteps
      exact ⟨hname, first, hf, ih.mpr ⟨middle, hrest, hsteps'⟩⟩

theorem execute_addTaskColumn {columns : List String}
    (h : execute fails (columns.map addTaskColumn) s = (.ok (), s')) :
    s' = { s with taskColumns := s.taskColumns ++ columns } := by
  induction columns generalizing s with
  | nil =>
    rw [List.map_nil, execute, Prod.mk.injEq] at h
    rw [List.append_nil]
    exact h.2.symm
  | cons column columns ih =>
    obtain ⟨-, middle, hf, hrest⟩ := execute_cons_ok.mp h
    cases hf
    rw [ih hrest]
    simp only [List.append_assoc, List.singleton_append]

end Execute

/-! ### Numbers in the queue -/

section Queue

variable {py : Reader} {p q : Process} {last : ℤ} {row : TaskRow} {rows rows' rows'' : List TaskRow}

/-- The rows with their numbers, and with what they did not have yet. -/
inductive Renumbered (py : Reader) (p : Process) : ℤ → List TaskRow → List TaskRow → Prop
  | nil (last : ℤ) : Renumbered py p last [] []
  | cons {last : ℤ} {row : TaskRow} {rows rows' : List TaskRow} {values : Option String × WriterKey}
    (hvalues : rowValues py p row = .ok values)
    (h : Renumbered py p (nextSeq last row) rows rows') :
    Renumbered py p last (row :: rows) (row.set values.1 values.2 (nextSeq last row) :: rows')

/-- An update changes the row with its key, and no other. -/
theorem tasks_updateTask {s : Stored ρ σ} {done : List TaskRow} (hs : s.tasks = done ++ row :: rows)
    (projectId : Option String) (writerKey : String) (queueSeq : ℤ) :
    (s.updateTask row.taskId projectId writerKey queueSeq).tasks =
      done ++ row.set projectId writerKey queueSeq :: rows := by
  have hkeyed := s.keyed
  rw [hs, List.map_append, List.map_cons] at hkeyed
  have hsame : ∀ others : List TaskRow, row.taskId ∉ others.map TaskRow.taskId →
      (others.map fun other => if other.taskId = row.taskId then
        other.set projectId writerKey queueSeq else other) = others := by
    intro others hnone
    rw [List.map_congr_left, List.map_id']
    intro other hother
    rw [if_neg]
    intro heq
    exact hnone (heq ▸ List.mem_map_of_mem hother)
  rw [List.nodup_middle, List.nodup_cons, List.mem_append, not_or] at hkeyed
  change s.tasks.map (fun other => if other.taskId = row.taskId then
    other.set projectId writerKey queueSeq else other) = _
  rw [hs, List.map_append, List.map_cons, if_pos rfl, hsame done hkeyed.1.1, hsame rows hkeyed.1.2]

/-- The updates renumber the rows that were selected, one after another. -/
theorem execute_updates {fails : Statement → Bool} {s s' : Stored ρ σ} {done : List TaskRow}
    (hs : s.tasks = done ++ rows)
    (h : execute fails (updates py p last rows) s = (.ok (), s')) :
    ∃ rows', Renumbered py p last rows rows' ∧ s'.tasks = done ++ rows' ∧
      ({ s' with tasks := [], keyed := List.nodup_nil } : Stored ρ σ) =
        { s with tasks := [], keyed := List.nodup_nil } := by
  induction rows generalizing last done s with
  | nil =>
    rw [updates, execute, Prod.mk.injEq] at h
    obtain ⟨-, rfl⟩ := h
    exact ⟨[], .nil last, hs, rfl⟩
  | cons row rows ih =>
    obtain ⟨-, middle, hf, hrest⟩ := execute_cons_ok.mp h
    obtain ⟨values, hvalues, hf⟩ := bind_eq_ok_iff.mp hf
    obtain ⟨_, -, hf⟩ := bind_eq_ok_iff.mp hf
    obtain rfl := pure_eq_ok_iff.mp hf
    have htasks := tasks_updateTask hs values.1 values.2 (nextSeq last row)
    have hsplit : done ++ row.set values.1 values.2 (nextSeq last row) :: rows =
        (done ++ [row.set values.1 values.2 (nextSeq last row)]) ++ rows := by
      rw [List.append_assoc, List.singleton_append]
    rw [hsplit] at htasks
    obtain ⟨rows', hrenumbered, hdone, hsame⟩ := ih htasks hrest
    refine ⟨_, .cons hvalues hrenumbered, ?_, hsame⟩
    rw [hdone, List.append_assoc, List.singleton_append]

/-- The columns of a row that no migration changes, and what it had in the others. -/
structure Kept (row row' : TaskRow) : Prop where
  taskId : row'.taskId = row.taskId
  planRevision : row'.planRevision = row.planRevision
  ordinal : row'.ordinal = row.ordinal
  status : row'.status = row.status
  payloadJson : row'.payloadJson = row.payloadJson
  updatedAt : row'.updatedAt = row.updatedAt
  projectId : row.projectId ≠ none → row'.projectId = row.projectId
  writerKey : row.writerKey.getD "" ≠ "" → row'.writerKey = row.writerKey
  queueSeq : ∀ n, row.queueSeq = some n → ∃ n', row'.queueSeq = some n' ∧ n ≤ n'

theorem Kept.refl (row : TaskRow) : Kept row row :=
  ⟨rfl, rfl, rfl, rfl, rfl, rfl, fun _ => rfl, fun _ => rfl, fun n h => ⟨n, h, le_rfl⟩⟩

/-- Every row has a number, and one that is greater than those before it. -/
def Increasing (rows : List TaskRow) : Prop :=
  ∃ numbers : List ℤ, rows.map TaskRow.queueSeq = numbers.map some ∧ numbers.Pairwise (· < ·)

theorem rowValues_eq_ok {values : Option String × WriterKey} :
    rowValues py p row = .ok values ↔ ∃ payload found, py.loads row.payloadJson = .ok payload ∧
      projectIdOf row payload = .ok found ∧ writerKeyOf p row payload = .ok values.2 ∧
      bound py found = .ok values.1 := by
  constructor
  · intro h
    obtain ⟨payload, hpayload, h⟩ := bind_eq_ok_iff.mp h
    obtain ⟨found, hfound, h⟩ := bind_eq_ok_iff.mp h
    obtain ⟨writerKey, hwriter, h⟩ := bind_eq_ok_iff.mp h
    obtain ⟨projectId, hbound, h⟩ := bind_eq_ok_iff.mp h
    obtain rfl := pure_eq_ok_iff.mp h
    exact ⟨payload, found, hpayload, hfound, hwriter, hbound⟩
  · rintro ⟨payload, found, hpayload, hfound, hwriter, hbound⟩
    rw [rowValues, hpayload, ok_bind, hfound, ok_bind, hwriter, ok_bind, hbound, ok_bind]
    rfl

theorem bound_some {payload : Value} {found : String ⊕ Value} {projectId : Option String}
    (h : projectIdOf row payload = .ok found) (hbound : bound py found = .ok projectId)
    (hrow : row.projectId ≠ none) : projectId = row.projectId := by
  unfold projectIdOf at h
  split at h
  next known hknown =>
    obtain rfl := Except.ok.inj h
    rw [hknown, ← Except.ok.inj hbound]
  next hnone => exact absurd hnone hrow

theorem writerKeyOf_some {payload : Value} {writerKey : WriterKey}
    (h : writerKeyOf p row payload = .ok writerKey) (hrow : row.writerKey.getD "" ≠ "") :
    some writerKey = row.writerKey := by
  unfold writerKeyOf at h
  split at h
  next known hknown =>
    rw [hknown, Option.getD_some] at hrow
    rw [if_neg hrow] at h
    rw [hknown, ← Except.ok.inj h]
  next hnone =>
    rw [hnone] at hrow
    exact absurd rfl hrow

theorem Renumbered.kept (h : Renumbered py p last rows rows') : List.Forall₂ Kept rows rows' := by
  induction h with
  | nil last => exact .nil
  | @cons last row rows rows' values hvalues h ih =>
    obtain ⟨payload, found, -, hfound, hwriter, hbound⟩ := rowValues_eq_ok.mp hvalues
    refine .cons ⟨rfl, rfl, rfl, rfl, rfl, rfl, bound_some hfound hbound,
      writerKeyOf_some hwriter, ?_⟩ ih
    intro n hn
    refine ⟨nextSeq last row, rfl, ?_⟩
    rw [nextSeq, hn, Option.getD_some]
    exact le_max_right _ _

theorem lt_nextSeq : last < nextSeq last row := by
  rw [nextSeq]
  exact lt_of_lt_of_le (by omega) (le_max_left (last + 1) _)

theorem Renumbered.increasing (h : Renumbered py p last rows rows') :
    ∃ numbers : List ℤ, rows'.map TaskRow.queueSeq = numbers.map some ∧
      numbers.Pairwise (· < ·) ∧ ∀ n ∈ numbers, last < n := by
  induction h with
  | nil last => exact ⟨[], rfl, .nil, fun n hn => by cases hn⟩
  | @cons last row rows rows' values hvalues h ih =>
    obtain ⟨numbers, hnumbers, hsorted, habove⟩ := ih
    refine ⟨nextSeq last row :: numbers, ?_, List.pairwise_cons.mpr ⟨habove, hsorted⟩, ?_⟩
    · rw [List.map_cons, List.map_cons, hnumbers]
      rfl
    · intro n hn
      obtain rfl | hn := List.mem_cons.mp hn
      · exact lt_nextSeq
      · exact lt_trans lt_nextSeq (habove n hn)

theorem prefixed_ne (start digest : String) (h : start ≠ "") : start ++ digest ≠ "" := by
  intro hempty
  have hlength := congrArg String.length hempty
  rw [String.length_append, String.length_empty] at hlength
  exact h (String.length_eq_zero_iff.mp (by omega))

theorem deriveWriterKey_ne {site : Planning.Site} {workspace : Path} {made : WriterKey}
    (h : site.deriveWriterKey workspace = .ok made) : made ≠ "" := by
  obtain ⟨resolved, -, h⟩ := bind_eq_ok_iff.mp h
  split at h
  · obtain ⟨commonDir, -, h⟩ := bind_eq_ok_iff.mp h
    rw [← pure_eq_ok_iff.mp h]
    exact prefixed_ne _ _ (by decide)
  · rw [← pure_eq_ok_iff.mp h]
    exact prefixed_ne _ _ (by decide)

/-- A writer key is never empty once it is set, so that it is not made again. -/
theorem writerKeyOf_ne {payload : Value} {writerKey : WriterKey}
    (h : writerKeyOf p row payload = .ok writerKey) : writerKey ≠ "" := by
  have hmade : ∀ made, madeWriterKey p payload = .ok made → made ≠ "" := by
    intro made h
    obtain ⟨fields, -, h⟩ := bind_eq_ok_iff.mp h
    obtain ⟨value, -, h⟩ := bind_eq_ok_iff.mp h
    obtain ⟨workspace, -, h⟩ := bind_eq_ok_iff.mp h
    obtain ⟨derived, hderived, h⟩ := bind_eq_ok_iff.mp h
    obtain ⟨_, -, h⟩ := bind_eq_ok_iff.mp h
    obtain ⟨_, -, h⟩ := bind_eq_ok_iff.mp h
    rw [← pure_eq_ok_iff.mp h]
    exact deriveWriterKey_ne hderived
  unfold writerKeyOf at h
  split at h
  · split at h
    · exact hmade _ h
    next hne =>
      rw [← Except.ok.inj h]
      exact hne
  · exact hmade _ h

/-- What has been set is not set to anything else, whoever renumbers the rows again. -/
theorem Renumbered.again (h : Renumbered py p last rows rows')
    (h' : Renumbered py q last rows' rows'') : rows'' = rows' := by
  induction h generalizing rows'' with
  | nil last =>
    cases h'
    rfl
  | @cons last row rows rows' values hvalues h ih =>
    obtain ⟨payload, found, hpayload, hfound, hwriter, hbound⟩ := rowValues_eq_ok.mp hvalues
    have hnumber : nextSeq last (row.set values.1 values.2 (nextSeq last row)) = nextSeq last row :=
      max_eq_right (Int.add_one_le_of_lt lt_nextSeq)
    cases h' with
    | @cons _ _ _ rest' values' hvalues' h'' =>
      obtain ⟨payload', found', hpayload', hfound', hwriter', hbound'⟩ :=
        rowValues_eq_ok.mp hvalues'
      obtain rfl : payload = payload' := Except.ok.inj (hpayload.symm.trans hpayload')
      have hfirst : values'.1 = values.1 := by
        cases hknown : values.1 with
        | some known =>
          rw [bound_some hfound' hbound' (by rw [TaskRow.set, hknown]; simp), TaskRow.set, hknown]
        | none =>
          -- Where nothing was found for the row, it had nothing, and the payload has nothing.
          have hnone : row.projectId = none := by
            by_contra hsome
            rw [← bound_some hfound hbound hsome, hknown] at hsome
            exact hsome rfl
          rw [projectIdOf, hnone] at hfound
          rw [projectIdOf, TaskRow.set, hknown] at hfound'
          obtain rfl := Except.ok.inj (hfound.symm.trans hfound')
          rw [← hknown]
          exact Except.ok.inj (hbound'.symm.trans hbound)
      have hsecond : values'.2 = values.2 := by
        have hsome := writerKeyOf_some hwriter' (writerKeyOf_ne hwriter)
        exact Option.some.inj hsome
      rw [hnumber] at h''
      rw [ih h'', hnumber, hfirst, hsecond]
      rfl

end Queue

/-! ### What an upgrade does -/

section Upgrades

variable {py : Reader} {p q : Process} {version : ℤ} {s s' s'' : Stored ρ σ}

def withIndex (name : String) (indexes : List String) : List String :=
  if name ∈ indexes then indexes else indexes ++ [name]

/-- How many tasks an upgrade from this version is recorded to have migrated. -/
def migrated (version : ℤ) (s : Stored ρ σ) : ℕ := if version < 3 then s.tasks.length else 0

/-- The ledger after an upgrade, against what it was. -/
structure Upgraded (py : Reader) (p : Process) (version : ℤ) (s s' : Stored ρ σ) : Prop where
  reached : s'.version = stateSchemaVersion
  taskColumns : s'.taskColumns = if version < 3 then
    s.taskColumns ++ taskColumnNames.filter fun column => column ∉ s.taskColumns else s.taskColumns
  renumbered : version < 3 → Renumbered py p 0 s.tasks s'.tasks
  tasks : ¬ version < 3 → s'.tasks = s.tasks
  runColumns : s'.runColumns = if "claim_git_head" ∈ s.runColumns then s.runColumns
    else s.runColumns ++ ["claim_git_head"]
  runs : s'.runs = s.runs
  indexes : s'.indexes = withIndex "idx_runs_state_task" (withIndex "idx_tasks_queue" s.indexes)
  migrations : s'.migrations = s.migrations.put stateSchemaVersion
    ⟨version, p.now, upgradeDetails (migrated version s)⟩
  rest : s'.rest = s.rest

theorem execute_addClaimGitHead {fails : Statement → Bool}
    (h : execute fails (addClaimGitHead s) s' = (.ok (), s'')) :
    s'' = { s' with runColumns := if "claim_git_head" ∈ s.runColumns then s'.runColumns
      else s'.runColumns ++ ["claim_git_head"] } := by
  unfold addClaimGitHead at h
  split at h
  next hthere =>
    rw [execute, Prod.mk.injEq] at h
    rw [if_pos hthere]
    exact h.2.symm
  next hmissing =>
    obtain ⟨-, middle, hf, hrest⟩ := execute_cons_ok.mp h
    cases hf
    rw [execute, Prod.mk.injEq] at hrest
    rw [if_neg hmissing]
    exact hrest.2.symm

/-- What the tasks of an older ledger become, with the rest as it is. -/
theorem execute_migrateTasks {fails : Statement → Bool}
    (h : execute fails (migrateTasks py p s) s = (.ok (), s')) :
    Renumbered py p 0 s.tasks s'.tasks ∧
      ({ s' with tasks := [], keyed := List.nodup_nil } : Stored ρ σ) =
        { s with
          taskColumns := s.taskColumns ++ taskColumnNames.filter fun c => c ∉ s.taskColumns
          tasks := [], keyed := List.nodup_nil } := by
  obtain ⟨middle, halters, hrest⟩ := execute_append_ok.mp h
  obtain ⟨-, selected, hf, hupdates⟩ := execute_cons_ok.mp hrest
  cases hf
  have hmiddle := execute_addTaskColumn halters
  have htasks : middle.tasks = [] ++ s.tasks := by
    rw [hmiddle, List.nil_append]
  obtain ⟨rows', hrenumbered, hdone, hsame⟩ := execute_updates htasks hupdates
  rw [List.nil_append] at hdone
  refine ⟨by rwa [hdone], ?_⟩
  rw [hsame, hmiddle]

theorem upgraded_of_upgrade (h : upgrade py p version s = (.ok (), s')) :
    Upgraded py p version s s' := by
  unfold upgrade at h
  split at h
  · cases h
  · split at h
    · cases h
    next after hexecute =>
      split at h
      · cases h
      · obtain ⟨-, rfl⟩ := Prod.mk.injEq .. ▸ h
        obtain ⟨headed, hbefore, hlast⟩ := execute_append_ok.mp hexecute
        obtain ⟨tasked, htasks, hhead⟩ := execute_append_ok.mp hbefore
        obtain ⟨-, first, hf, hlast⟩ := execute_cons_ok.mp hlast
        cases hf
        obtain ⟨-, second, hf, hlast⟩ := execute_cons_ok.mp hlast
        cases hf
        obtain ⟨-, third, hf, hlast⟩ := execute_cons_ok.mp hlast
        cases hf
        obtain ⟨-, fourth, hf, hlast⟩ := execute_cons_ok.mp hlast
        cases hf
        rw [execute, Prod.mk.injEq] at hlast
        obtain ⟨-, rfl⟩ := hlast
        obtain rfl := execute_addClaimGitHead hhead
        by_cases hv : version < 3
        · rw [if_pos hv] at htasks
          obtain ⟨hrenumbered, hsame⟩ := execute_migrateTasks htasks
          simp only [Stored.mk.injEq] at hsame
          obtain ⟨-, hcolumns, -, hruncolumns, hruns, hindexes, hmigrations, hrest⟩ := hsame
          exact {
            reached := rfl
            taskColumns := hcolumns.trans (if_pos hv).symm
            renumbered := fun _ => hrenumbered
            tasks := fun h => absurd hv h
            runColumns := by rw [← hruncolumns]
            runs := hruns
            indexes := by rw [← hindexes]; rfl
            migrations := by rw [← hmigrations]; rfl
            rest := hrest }
        · rw [if_neg hv, execute, Prod.mk.injEq] at htasks
          obtain ⟨-, rfl⟩ := htasks
          exact {
            reached := rfl
            taskColumns := (if_neg hv).symm
            renumbered := fun h => absurd h hv
            tasks := fun _ => rfl
            runColumns := rfl
            runs := rfl
            indexes := rfl
            migrations := rfl
            rest := rfl }

theorem upgrade_error {e : Exn} (h : upgrade py p version s = (.error e, s')) : s' = s := by
  unfold upgrade at h
  split at h
  · exact (Prod.mk.inj h).2.symm
  · split at h
    · exact (Prod.mk.inj h).2.symm
    · split at h
      · exact (Prod.mk.inj h).2.symm
      · cases h

/-! ### Upgrades that race -/

def Applied.untimed (applied : Applied) : ℤ × String := (applied.fromVersion, applied.details)

/-- The same ledger, apart from when its migration was recorded. -/
structure SameLedger (s s' : Stored ρ σ) : Prop where
  version : s'.version = s.version
  taskColumns : s'.taskColumns = s.taskColumns
  tasks : s'.tasks = s.tasks
  runColumns : s'.runColumns = s.runColumns
  runs : s'.runs = s.runs
  indexes : s'.indexes = s.indexes
  migrations : ∀ k ≠ stateSchemaVersion, s'.migrations.lookup k = s.migrations.lookup k
  recorded : (s'.migrations.lookup stateSchemaVersion).map Applied.untimed =
    (s.migrations.lookup stateSchemaVersion).map Applied.untimed
  rest : s'.rest = s.rest

theorem SameLedger.refl (s : Stored ρ σ) : SameLedger s s :=
  ⟨rfl, rfl, rfl, rfl, rfl, rfl, fun _ _ => rfl, rfl, rfl⟩

theorem SameLedger.trans (h : SameLedger s s') (h' : SameLedger s' s'') : SameLedger s s'' where
  version := h'.version.trans h.version
  taskColumns := h'.taskColumns.trans h.taskColumns
  tasks := h'.tasks.trans h.tasks
  runColumns := h'.runColumns.trans h.runColumns
  runs := h'.runs.trans h.runs
  indexes := h'.indexes.trans h.indexes
  migrations k hk := (h'.migrations k hk).trans (h.migrations k hk)
  recorded := h'.recorded.trans h.recorded
  rest := h'.rest.trans h.rest

/-- A ledger that an upgrade from this version has nothing left to do for. -/
structure Settled (py : Reader) (version : ℤ) (s : Stored ρ σ) : Prop where
  reached : s.version = stateSchemaVersion
  tasks : version < 3 → (∀ column ∈ taskColumnNames, column ∈ s.taskColumns) ∧
    ∃ p rows, Renumbered py p 0 rows s.tasks
  runColumns : "claim_git_head" ∈ s.runColumns
  indexes : "idx_tasks_queue" ∈ s.indexes ∧ "idx_runs_state_task" ∈ s.indexes
  recorded : (s.migrations.lookup stateSchemaVersion).map Applied.untimed =
    some (version, upgradeDetails (migrated version s))

theorem mem_withIndex {name other : String} {indexes : List String} :
    other ∈ withIndex name indexes ↔ other = name ∨ other ∈ indexes := by
  rw [withIndex]
  split
  next h =>
    constructor
    · exact .inr
    · rintro (rfl | hmem)
      · exact h
      · exact hmem
  next => simp [or_comm]

theorem Renumbered.length_eq {last : ℤ} {rows rows' : List TaskRow}
    (h : Renumbered py p last rows rows') : rows'.length = rows.length :=
  h.kept.length_eq.symm

theorem Upgraded.settled (h : Upgraded py p version s s') : Settled py version s' where
  reached := h.reached
  tasks hv := by
    refine ⟨?_, p, s.tasks, h.renumbered hv⟩
    intro column hcolumn
    rw [h.taskColumns, if_pos hv, List.mem_append, List.mem_filter, decide_eq_true_eq]
    tauto
  runColumns := by
    rw [h.runColumns]
    split
    next hthere => exact hthere
    next => simp
  indexes := by
    rw [h.indexes, mem_withIndex, mem_withIndex, mem_withIndex, mem_withIndex]
    exact ⟨.inr (.inl rfl), .inl rfl⟩
  recorded := by
    have hcount : migrated version s' = migrated version s := by
      unfold migrated
      split
      next hv => exact (h.renumbered hv).length_eq
      next => rfl
    rw [h.migrations, Table.lookup_put, if_pos rfl, hcount]
    rfl

/-- An upgrade of a settled ledger leaves everything but the time of the record. -/
theorem Settled.same (hs : Settled py version s) (h : Upgraded py p version s s') :
    SameLedger s s' where
  version := h.reached.trans hs.reached.symm
  taskColumns := by
    rw [h.taskColumns]
    split
    next hv =>
      have hnone : (taskColumnNames.filter fun column => column ∉ s.taskColumns) = [] := by
        rw [List.filter_eq_nil_iff]
        intro column hcolumn
        rw [decide_eq_true_eq, not_not]
        exact (hs.tasks hv).1 column hcolumn
      rw [hnone, List.append_nil]
    next => rfl
  tasks := by
    by_cases hv : version < 3
    · obtain ⟨-, q, rows, hrenumbered⟩ := hs.tasks hv
      exact hrenumbered.again (h.renumbered hv)
    · exact h.tasks hv
  runColumns := by rw [h.runColumns, if_pos hs.runColumns]
  runs := h.runs
  indexes := by
    have hfirst : withIndex "idx_tasks_queue" s.indexes = s.indexes := if_pos hs.indexes.1
    rw [h.indexes, hfirst, withIndex, if_pos hs.indexes.2]
  migrations k hk := by rw [h.migrations, Table.lookup_put, if_neg hk]
  recorded := by
    rw [h.migrations, Table.lookup_put, if_pos rfl, hs.recorded]
    rfl
  rest := h.rest

end Upgrades

/-! ### Opening an older ledger -/

section Opening

variable {py : Reader} {s s' : Stored ρ σ}

theorem initializeLedger_eq {p : Process} {read : Stored ρ σ} (hv : 0 ≤ read.version)
    (hv' : read.version < stateSchemaVersion) :
    initializeLedger py p read s = if p.fails .schema then
      (.error operationalError, s) else upgrade py p read.version s := by
  rw [initializeLedger,
    if_neg (show ¬ (read.version < 0 ∨ stateSchemaVersion < read.version) by omega), if_pos hv']

theorem settled_initializeLedger (q : Process) {read : Stored ρ σ} (hv : 0 ≤ read.version)
    (hv' : read.version < stateSchemaVersion) (hs : Settled py read.version s) :
    SameLedger s (initializeLedger py q read s).2 ∧
      Settled py read.version (initializeLedger py q read s).2 := by
  rw [initializeLedger_eq hv hv']
  split
  · exact ⟨.refl s, hs⟩
  · cases hmade : upgrade py q read.version s with
    | mk result after => cases result with
      | error e =>
        rw [upgrade_error hmade]
        exact ⟨.refl s, hs⟩
      | ok done =>
        have hupgraded := upgraded_of_upgrade hmade
        exact ⟨hs.same hupgraded, hupgraded.settled⟩

/-- The migration of an older ledger. It keeps every row and what the row has; from a version before
the third, every task gets a number in the queue, greater than those of the rows before it and not
less than it had; from the third, the tasks are as they were. Processes that have read the older
version may all migrate the ledger again, and leave the same ledger apart from the time of the
record. Where it fails, nothing has changed. -/
theorem migration_preserves (py : Reader) (p : Process) (s : Stored ρ σ) (hv : 0 ≤ s.version)
    (hv' : s.version < stateSchemaVersion) :
    (∀ s', initializeLedger py p s s = (.ok (), s') →
      List.Forall₂ Kept s.tasks s'.tasks ∧ s'.runs = s.runs ∧ s'.rest = s.rest ∧
      (∀ k ≠ stateSchemaVersion, s'.migrations.lookup k = s.migrations.lookup k) ∧
      (s.version < 3 → Increasing s'.tasks) ∧ (¬ s.version < 3 → s'.tasks = s.tasks) ∧
      ∀ qs : List Process,
        SameLedger s' (qs.foldl (fun now q => (initializeLedger py q s now).2) s')) ∧
    ∀ e s', initializeLedger py p s s = (.error e, s') → s' = s := by
  constructor
  · intro s' h
    rw [initializeLedger_eq hv hv'] at h
    split at h
    · cases h
    have hupgraded := upgraded_of_upgrade h
    refine ⟨?_, hupgraded.runs, hupgraded.rest, ?_, ?_, hupgraded.tasks, ?_⟩
    · by_cases hthird : s.version < 3
      · exact (hupgraded.renumbered hthird).kept
      · rw [hupgraded.tasks hthird]
        exact List.forall₂_same.mpr fun row _ => .refl row
    · intro k hk
      rw [hupgraded.migrations, Table.lookup_put, if_neg hk]
    · intro hthird
      obtain ⟨numbers, hnumbers, hsorted, -⟩ := (hupgraded.renumbered hthird).increasing
      exact ⟨numbers, hnumbers, hsorted⟩
    · intro qs
      have hrun : ∀ now, Settled py s.version now →
          SameLedger now (qs.foldl (fun now q => (initializeLedger py q s now).2) now) := by
        induction qs with
        | nil => exact fun now _ => .refl now
        | cons q qs ih =>
          intro now hnow
          obtain ⟨hsame, hsettled⟩ := settled_initializeLedger q hv hv' hnow
          exact hsame.trans (ih _ hsettled)
      exact hrun s' hupgraded.settled
  · intro e s' h
    rw [initializeLedger_eq hv hv'] at h
    split at h
    · exact (Prod.mk.inj h).2.symm
    · exact upgrade_error h

end Opening

namespace Legacy

def site : Planning.Site where
  isSymlink := fun _ => .ok false
  isDir := fun _ => .ok true
  isFile := fun _ => .ok false
  present := fun _ => .ok true
  executable := fun _ => false
  resolve := .ok
  expandUser := .ok
  which := fun _ => none
  sha256File := fun _ => .error "OSError"
  sha256 := id
  git := fun _ _ => ⟨128, ""⟩

def reader : Reader where
  loads := fun _ => .ok (.obj [])
  bind := fun
    | .null => .ok none
    | .str (.str s) => .ok (some s)
    | _ => .error (.other "InterfaceError" "Error binding parameter")

def process (now : String) : Process := ⟨now, site, fun _ => false⟩

def row (taskId : TaskId) (queueSeq : Option ℤ) : TaskRow :=
  ⟨taskId, "plan", 0, none, some "workspace:0", queueSeq, "PLANNED", "\x7b\x7d", "2026-01-01"⟩

/-- A ledger of two tasks with one number between them. -/
def ledger (version : ℤ) : Stored String Unit where
  version := version
  taskColumns := taskColumnNames
  tasks := [row "first" (some 7), row "second" (some 7)]
  runColumns := []
  runs := [("run", none)]
  indexes := []
  migrations := ∅
  rest := ()
  keyed := by decide

/-- The third version, migrated at one time and again at another. -/
def migratedOnce : Stored String Unit :=
  (initializeLedger reader (process "now") (ledger 3) (ledger 3)).2

def migratedTwice : Stored String Unit :=
  (initializeLedger reader (process "later") (ledger 3) migratedOnce).2

theorem eq_of_isOk {made : Checked Unit × Stored String Unit} (h : made.1.isOk) :
    made = (.ok (), made.2) := by
  obtain ⟨result, after⟩ := made
  cases result with
  | error e => cases h
  | ok done => rfl

end Legacy

open Legacy in
theorem migration_preserves_second : ∃ s',
    initializeLedger reader (process "now") (ledger 2) (ledger 2) = (.ok (), s') ∧
      Increasing s'.tasks := by
  obtain ⟨hkept, -⟩ := migration_preserves reader (process "now") (ledger 2) (by decide) (by decide)
  have hmade := @eq_of_isOk (initializeLedger reader (process "now") (ledger 2) (ledger 2))
    (by decide)
  obtain ⟨-, -, -, -, hincreasing, -⟩ := hkept _ hmade
  exact ⟨_, hmade, hincreasing (by decide)⟩

open Legacy in
/-- The third version has its tasks numbered already, however they are, and a migration that is made
again is recorded at its own time. -/
theorem migration_keeps_third :
    initializeLedger reader (process "now") (ledger 3) (ledger 3) = (.ok (), migratedOnce) ∧
      ¬ Increasing migratedOnce.tasks ∧
      initializeLedger reader (process "later") (ledger 3) migratedOnce = (.ok (), migratedTwice) ∧
      migratedTwice.migrations.lookup 4 ≠ migratedOnce.migrations.lookup 4 := by
  refine ⟨eq_of_isOk (by decide), ?_, eq_of_isOk (by decide), ?_⟩
  · rintro ⟨numbers, hnumbers, hsorted⟩
    have hsame : migratedOnce.tasks.map TaskRow.queueSeq = [7, 7].map some := by decide
    have heq : [7, 7] = numbers :=
      List.map_injective_iff.mpr (Option.some_injective ℤ) (hsame.symm.trans hnumbers)
    rw [← heq] at hsorted
    exact absurd hsorted (by decide)
  · intro h
    have htimes : (migratedTwice.migrations.lookup 4).map Applied.appliedAt ≠
        (migratedOnce.migrations.lookup 4).map Applied.appliedAt := by decide
    exact htimes (congrArg _ h)

end OrchKit.Migration
