import OrchKit.Bridge.Records
import OrchKit.Data.Table

/-! # The evidence under the runtime directory

The intent journal and the execution store, as the directories and files that are there:
besides the records that have been linked, the staging files a stopped writer has left.
Whatever is not exactly a complete set of valid records is unknown evidence.
-/

namespace OrchKit.Bridge

open Table

/-- A run's directory in the intent journal. A staging file that is still a second name of a
record is kept with the digest of that record's operation. -/
structure IntentDir where
  records : Table Digest IntentRecord := ∅
  temps : List (TempName × Option Digest) := []

/-- An operation's directory in the execution store. -/
structure OpDir where
  chain : Chain := {}
  temps : List TempName := []

abbrev RunDir := Table Digest OpDir

/-- The two directories, where they exist. -/
structure Runtime where
  journal : Option (Table Digest IntentDir) := none
  execution : Option (Table Digest RunDir) := none

/-- What a lookup finds; evidence that cannot be read as it should be is unknown. -/
inductive Found (α : Type)
  | absent
  | recorded (a : α)
  | unknown
  deriving DecidableEq

structure Operation where
  runId : RunId
  operationId : String
  chain : Chain
  deriving DecidableEq

inductive Census
  | absent
  | ready (operations : List Operation)
  | unknown
  deriving DecidableEq

def Census.operations : Census → List Operation
  | ready operations => operations
  | _ => []

def maxOperations : ℕ := 1024

def maxOperationsPerRun : ℕ := 64

/-- `_id_hash` accepts the identifier. -/
def isHashable (id : String) : Bool := identifier 200 isWord id

namespace Runtime

variable (digests : Digests) (uid : ℕ) (s : Runtime)

def intentDir (runId : RunId) : Option IntentDir :=
  s.journal.bind fun runs => runs.lookup (digests.id runId)

/-- `OperationIntentJournal.inspect`. -/
def inspectIntent (runId : RunId) (operationId : String) : Found IntentRecord :=
  if ¬ isHashable runId ∨ ¬ isHashable operationId then
    .unknown
  else
    match s.intentDir digests runId with
    | none => .absent
    | some dir =>
      match dir.records.lookup (digests.id operationId) with
      | none => .absent
      | some intent =>
        if dir.temps.all (fun t => t.2 ≠ some (digests.id operationId)) ∧ intent.valid digests ∧
            digests.id intent.request.binding.runId = digests.id runId ∧
            digests.id intent.request.operationId = digests.id operationId then
          .recorded intent
        else
          .unknown

/-- `_operation`, on the directory under these two digests; `none` where it raises. -/
def readOperation (runHash operationHash : Digest) (dir : OpDir) : Option Chain := do
  guard (dir.temps = [])
  let dispatch ← dir.chain.dispatch
  let request := dispatch.request
  guard (digests.id request.binding.runId = runHash ∧
    digests.id request.operationId = operationHash)
  match s.inspectIntent digests request.binding.runId request.operationId with
  | .recorded intent =>
    guard (dir.chain.valid digests uid intent)
    return dir.chain
  | _ => none

def opDir (runId : RunId) (operationId : String) : Option OpDir :=
  s.execution.bind fun runs => (runs.lookup (digests.id runId)).bind fun run =>
    run.lookup (digests.id operationId)

/-- `PatchExecutionStore.inspect`. -/
def inspect (runId : RunId) (operationId : String) : Found Chain :=
  if ¬ isHashable runId ∨ ¬ isHashable operationId then
    .unknown
  else
    match s.opDir digests runId operationId with
    | none => .absent
    | some dir =>
      match s.readOperation digests uid (digests.id runId) (digests.id operationId) dir with
      | some chain => .recorded chain
      | none => .unknown

/-- The part of `_inventory` for one operation. -/
def readEntry (runHash : Digest) (entry : (_ : Digest) × OpDir) : Option Operation := do
  guard (isDigest entry.1)
  let chain ← s.readOperation digests uid runHash entry.1 entry.2
  let dispatch ← chain.dispatch
  return ⟨dispatch.request.binding.runId, dispatch.request.operationId, chain⟩

/-- The part of `_inventory` for one run. -/
def readRun (entry : (_ : Digest) × RunDir) : Option (List Operation) := do
  guard (isDigest entry.1 ∧ entry.2.entries ≠ [] ∧ entry.2.entries.length ≤ maxOperationsPerRun)
  entry.2.entries.mapM (s.readEntry digests uid entry.1)

/-- `_inventory` of an execution directory that exists; `none` where it raises. -/
def inventory (runs : Table Digest RunDir) : Option (List Operation) := do
  guard (runs.entries ≠ [] ∧ runs.entries.length ≤ maxOperations)
  let operations ← runs.entries.mapM (s.readRun digests uid)
  guard (operations.flatten.length ≤ maxOperations)
  return operations.flatten

/-- `execution_inventory`. -/
def census : Census :=
  match s.execution with
  | none => .absent
  | some runs =>
    match s.inventory digests uid runs with
    | some operations => .ready operations
    | none => .unknown

/-- `journal_inventory` is complete. -/
def journalReady : Bool :=
  match s.journal with
  | none => false
  | some runs =>
    runs.entries.length ≤ maxOperations &&
      (runs.entries.map fun entry => entry.2.records.entries.length).sum ≤ maxOperations &&
      runs.entries.all fun entry => isDigest entry.1 && entry.2.temps = [] &&
        entry.2.records.entries.length ≤ maxOperationsPerRun &&
        entry.2.records.entries.all fun e => isDigest e.1 && e.2.valid digests &&
          digests.id e.2.request.binding.runId = entry.1 &&
          digests.id e.2.request.operationId = e.1

/-- The listings that an acknowledgement takes of the journal are in order. -/
def journalListed (runId : RunId) : Bool :=
  s.journal.any (fun runs => runs.entries.length ≤ maxOperations &&
      runs.entries.all fun entry => isDigest entry.1) &&
    (s.intentDir digests runId).any fun dir => dir.temps = [] && dir.records.entries ≠ [] &&
      dir.records.entries.length ≤ maxOperationsPerRun &&
      dir.records.entries.all fun e => isDigest e.1

/-- The listings that an acknowledgement takes of the store are in order. -/
def executionListed (runId : RunId) : Bool :=
  s.execution.any (fun runs => runs.entries.length ≤ maxOperations &&
      runs.entries.all fun entry => isDigest entry.1) &&
    (s.execution.bind fun runs => runs.lookup (digests.id runId)).any fun run =>
      run.entries.length ≤ maxOperationsPerRun && run.entries.all fun entry => isDigest entry.1

/-- What `acknowledge_existing` reads, twice, of an operation and of its intent. -/
def evidence (runId : RunId) (operationId : String) (expected : Chain)
    (request : Option WorkerOperationRequest) (binding : Option WorkerRunBinding) :
    Option Chain := do
  guard (s.journalListed digests runId ∧ s.executionListed digests runId)
  let dir ← s.opDir digests runId operationId
  guard (dir.temps = [])
  match s.inspectIntent digests runId operationId with
  | .recorded intent =>
    guard (intent.request.binding.runId = runId ∧ intent.request.operationId = operationId)
    guard (dir.chain.valid digests uid intent ∧ expected.valid digests uid intent ∧
      dir.chain = expected)
    guard (request.all (intent.request = ·) ∧ binding.all (intent.request.binding = ·))
    return dir.chain
  | _ => none

end Runtime

end OrchKit.Bridge
