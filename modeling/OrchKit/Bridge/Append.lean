import OrchKit.Bridge.Operations

/-! # Appending to the execution store

A record is appended under the lock of the runtime directory: the whole store is read, the
record is checked against the chain it continues and against the intent, and only then are
directories made and the record staged and linked. Once it is linked, whatever goes wrong
leaves it unknown whether it was stored.
-/

namespace OrchKit.Bridge

open Program

abbrev Routine := Prog bridgeSig Exn

inductive AppendStatus
  | created
  | existing
  | conflict
  | refused
  | unknown
  deriving DecidableEq

structure AppendReply where
  status : AppendStatus
  errorCode : String := ""
  deriving DecidableEq

namespace Routine

variable {α : Type}

def look (l : Look) : Routine l.Value := .call (.look l) .ret

def ofChecked : Checked α → Routine α
  | .ok a => .ret a
  | .error e => .raise e

def act (a : Act) : Routine a.Value := .call (.act a) ofChecked

/-- Raise `e` unless `p` holds. -/
def require (p : Prop) [Decidable p] (e : Exn) : Routine Unit := if p then .ret () else .raise e

def demand (o : Option α) (e : Exn) : Routine α :=
  match o with
  | some a => .ret a
  | none => .raise e

/-- `try: ... except Exception`: whether the routine has returned. -/
def succeeds (p : Routine Unit) : Routine Bool :=
  (p >>= fun _ => .ret true).catching fun _ => .ret false

/-- Run `cleanup` when the routine raises, and raise on. -/
def onError (p : Routine α) (cleanup : Routine Unit) : Routine α :=
  p.catching fun e => cleanup >>= fun _ => .raise e

end Routine

open Routine

variable (m : Machine)

/-- `_acknowledge_intent`. -/
def acknowledgeIntent (intent : IntentRecord) (dispatch : DispatchRecord)
    (authorize : Routine Unit) : Routine Unit := do
  authorize
  act (.intentEvidence intent dispatch)
  authorize

/-- `acknowledge_existing`. -/
def acknowledgeExisting (runId : RunId) (operationId : String) (expected : Chain)
    (authorize : Routine Unit) (request : Option WorkerOperationRequest)
    (binding : Option WorkerRunBinding) : Routine Chain := do
  authorize
  let chain ← act (.evidence runId operationId expected request binding)
  authorize
  return chain

/-- Write the staging file and link it, unless authority has gone. -/
def linkStaged (runHash operationHash : Digest) (name : TempName) (record : ExecutionRecord)
    (authorize : Routine Unit) : Routine Bool := do
  act .writeStaged
  if ← succeeds authorize then
    act (.link runHash operationHash name record)
    return true
  else
    return false

/-- What follows once the record is linked. -/
def confirm (runHash operationHash : Digest) (name : TempName) (record : ExecutionRecord) :
    Routine AppendReply := do
  let unstage := act (.unstage runHash operationHash name)
  onError unstage unstage
  act (.readBack runHash operationHash record)
  return { status := .created }

/-- The part of `append` that writes. -/
def publish (name : TempName) (record : ExecutionRecord) (authorize : Routine Unit) :
    Routine AppendReply := do
  let runHash := m.digests.id record.base.request.binding.runId
  let operationHash := m.digests.id record.base.request.operationId
  let unstage := act (.unstage runHash operationHash name)
  act .makeExecution
  act (.makeRun runHash)
  act (.makeOperation runHash operationHash)
  act (.stage runHash operationHash name)
  -- a failure here leaves the staging file: its inode is not known yet
  act .openStaged
  if ← onError (linkStaged runHash operationHash name record authorize) unstage then
    (confirm runHash operationHash name record).catching fun _ =>
      .ret { status := .unknown, errorCode := "patch_execution_publication_unknown" }
  else
    unstage
    return { status := .refused, errorCode := "patch_execution_authority_denied" }

/-- The records that were found, none if there are none. -/
def recordsOf : Found Chain → Routine Chain
  | .unknown => .raise (.value "patch_execution_existing_unknown")
  | .absent => .ret {}
  | .recorded chain => .ret chain

/-- The part of `append` that reads the store. -/
def appendChecked (name : TempName) (record : ExecutionRecord) (authorize : Routine Unit) :
    Routine AppendReply := do
  let request := record.base.request
  let runId := request.binding.runId
  act .checkLock
  let census ← look .census
  require (census ≠ .unknown) (.value "patch_execution_inventory_unknown")
  let found ← look (.inspect runId request.operationId)
  let chain ← recordsOf found
  match chain.record record.phase with
  | some existing =>
    if existing = record then
      let _ ← acknowledgeExisting runId request.operationId chain authorize request request.binding
      return { status := .existing }
    else
      return { status := .conflict, errorCode := "patch_execution_phase_conflict" }
  | none =>
    if chain.result.isSome then
      return { status := .conflict, errorCode := "patch_execution_terminal" }
    match ← look (.inspectIntent runId request.operationId) with
    | .recorded intent =>
      if ¬ (chain.put record).valid m.digests m.uid.toNat intent then
        return { status := if chain = {} then .refused else .conflict
                 errorCode := "patch_execution_chain_mismatch" }
      if chain = {} ∧ (census.operations.length ≥ maxOperations ∨
          (census.operations.countP (·.runId = runId)) ≥ maxOperationsPerRun) then
        return { status := .refused, errorCode := "patch_execution_capacity_exceeded" }
      match record with
      | .dispatch dispatch => acknowledgeIntent intent dispatch authorize
      | _ => pure ()
      publish m name record authorize
    | _ => return { status := .refused, errorCode := "patch_execution_intent_required" }

/-- `append`. -/
def append (record : ExecutionRecord) (authorize : Routine Unit) : Routine AppendReply := do
  if ¬ record.valid m.uid.toNat then
    return { status := .refused, errorCode := "patch_execution_invalid_or_unlocked" }
  if ¬ (← succeeds (act .checkLock)) then
    return { status := .refused, errorCode := "patch_execution_invalid_or_unlocked" }
  if ¬ (← succeeds authorize) then
    return { status := .refused, errorCode := "patch_execution_authority_denied" }
  (do
    let name ← act .randomName
    appendChecked m name record authorize).catching fun _ =>
      .ret { status := .unknown, errorCode := "patch_execution_storage_unknown" }

end OrchKit.Bridge
