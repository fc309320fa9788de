import OrchKit.Ledger.Plan
import OrchKit.Planning.Preparation

/-! # Admitting a plan

What `load_plan` does before its transaction: the document is read, its tasks are validated one
after the other, their dependencies are searched for a cycle, and the tasks are prepared.
-/

namespace OrchKit.Planning

open Except Json

/-- What opening a plan file finds. -/
structure PlanFile where
  regular : Bool
  bytes : List UInt8

def planMaxBytes : ℕ := 1024 * 1024

/-- The dependencies of each task of a plan, under its id. -/
abbrev Edges := List (TaskId × List TaskId)

section Admission

variable (py : Interpreter) (site : Site)

def readPlanDocument (file : PlanFile) : Checked Fields := do
  require file.regular (.value "plan_file_missing_or_unsafe")
  require (file.bytes.length ≤ planMaxBytes) (.value "plan_too_large")
  match py.loads file.bytes with
  | .value (.obj data) => return data
  | .value _ => .error (.value "invalid_plan")
  | .malformed => .error (.value "invalid_plan_json")
  | .fault fault => .error (ofFault fault)

def objectOf : Value → Option Fields
  | .obj fields => some fields
  | _ => none

/-- The tasks of a plan, if each is an object under an id of its own. -/
def planItems (values : List Value) : Checked (List Fields) := do
  let ids := values.map fun item => (item.get "id").bind Value.text?
  require ((∀ i ∈ ids, i.any isProjectId) ∧ ids.Nodup) (.value "invalid_task_ids")
  return values.filterMap objectOf

def planTasks (value : Value) : Checked (List Fields) :=
  match value with
  | .arr values => do
    require (values ≠ []) (.value "empty_plan")
    require (values.length ≤ planMaxTasks) (.value "plan_too_many_tasks")
    planItems values
  | _ => .error (.value "empty_plan")

def checkAdapter (value : Value) : Checked Unit :=
  match value with
  | .null | .obj _ => .ok ()
  | _ => .error (.value "invalid_plan_adapter")

/-- The revision of a plan and its tasks. -/
def planHeader (data : Fields) : Checked (String × List Fields) := do
  knownFields data ["schema_version", "plan_revision", "tasks", "adapter"] "unknown_plan_field:"
  require ((get data "schema_version").key = some (.number 1)) (.value "invalid_plan")
  let revision ← ofOption
    ((get data "plan_revision").text?.filter fun s => isIdentifier s && s.length ≤ 200)
    (.value "invalid_plan")
  checkAdapter (get data "adapter")
  let items ← planTasks (get data "tasks")
  return (revision, items)

def isOtherName (taskId : TaskId) : Value → Bool
  | .str t => t ≠ .str "" && t ≠ .str taskId
  | _ => false

/-- The dependencies of a task are names, of other tasks. -/
def checkDependencies (fields : Fields) : Checked Unit :=
  match getD fields "dependencies" (.arr []) with
  | .arr deps => require (deps.all (isOtherName (taskIdOf fields))) (.value "invalid_dependency")
  | _ => .error (.value "invalid_dependency")

def validateItem (fields : Fields) : Checked Unit := do
  checkDependencies fields
  validateTaskDefinition py site (.obj fields)

/-- `validate_dependency_graph`. -/
def validateEdges (edges : Edges) : Checked Unit :=
  let graph : Table TaskId (List TaskId) := edges.foldl (fun graph e => graph.put e.1 e.2) ∅
  match Search.search (nextInGraph graph) recursionLimit (edges.map Prod.fst) with
  | .ok _ => .ok ()
  | .error .cycle => .error (.value "dependency_cycle")
  | .error .depth => .error (.other "RecursionError" "maximum recursion depth exceeded")

def edgesOf (items : List Fields) : Edges :=
  items.map fun fields => (taskIdOf fields, dependenciesOf fields)

/-- The tasks of a plan, validated and prepared. -/
def admitTasks (items : List Fields) : Checked (List TaskPayload) := do
  items.forM (validateItem py site)
  validateEdges (edgesOf items)
  items.mapM (prepareTaskPayload py site)

/-- `load_plan`, up to its transaction; `digest` is the hash of the document. -/
def admitPlan (digest : List UInt8 → Hash) (file : PlanFile) :
    Checked (String × Hash × List TaskPayload) := do
  let data ← readPlanDocument py file
  let (revision, items) ← planHeader data
  let payloads ← admitTasks py site items
  return (revision, digest file.bytes, payloads)

end Admission

end OrchKit.Planning
