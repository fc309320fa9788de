import OrchKit.Bridge.Append

/-! # Recording the intent of a patch

The intent is journalled once, before anything else of a patch: under live authority, with
the target as the caller expects it, and under the journal's own lock. A second call with
the same request finds the intent that is there.
-/

namespace OrchKit.Bridge

open Program Routine

variable (m : Machine)

/-- What `create` and `prepare` answer. -/
inductive JournalReply
  | created (intent : IntentRecord)
  | existing (intent : IntentRecord)
  | conflict (errorCode : String)
  | refused (errorCode : String)
  | unknown (errorCode : String)
  deriving DecidableEq

/-! ### The journal -/

/-- Write the staging file and link it, unless authority has gone; the answer tells whether the
name was free. -/
def linkStagedIntent (runHash operationHash : Digest) (name : TempName) (intent : IntentRecord)
    (authorize : Routine Unit) : Routine (Option Bool) := do
  act .writeStaged
  if ← succeeds authorize then
    let linked ← act (.linkIntent runHash operationHash name intent)
    return some linked
  else
    return none

/-- What follows once the record is there, linked now or before. -/
def confirmIntent (runHash : Digest) (name : TempName) (intent : IntentRecord) :
    Routine IntentRecord := do
  let unstage := act (.unstageIntent runHash name)
  onError unstage unstage
  act (.readIntent intent.request.binding.runId intent.request.operationId)

/-- The same for a record that has just been linked. -/
def confirmLinked (runHash : Digest) (name : TempName) (intent : IntentRecord) :
    Routine JournalReply := do
  let observed ← confirmIntent runHash name intent
  Routine.require (observed = intent) (.value "journal_publication_changed")
  return .created observed

/-- The part of `create` that writes. -/
def publishIntent (name : TempName) (intent : IntentRecord) (authorize : Routine Unit) :
    Routine JournalReply := do
  let runHash := m.digests.id intent.request.binding.runId
  let operationHash := m.digests.id intent.request.operationId
  let unstage := act (.unstageIntent runHash name)
  act (.makeIntentRun runHash)
  act (.stageIntent runHash name)
  act .openStaged
  match ← onError (linkStagedIntent runHash operationHash name intent authorize) unstage with
  | none =>
    unstage
    return .refused "journal_authority_denied"
  | some false =>
    let observed ← confirmIntent runHash name intent
    if observed.fingerprint = intent.fingerprint then
      return .existing observed
    else
      return .conflict "journal_operation_conflict"
  | some true =>
    (confirmLinked runHash name intent).catching fun _ =>
      .ret (.unknown "journal_publication_unknown")

/-- The part of `create` under the journal's lock. -/
def createLocked (name : TempName) (intent : IntentRecord) (authorize : Routine Unit) :
    Routine JournalReply := do
  let runId := intent.request.binding.runId
  let runHash := m.digests.id runId
  let inventory ← act .journalInventory
  match ← look (.inspectIntent runId intent.request.operationId) with
  | .recorded previous =>
    if previous.fingerprint = intent.fingerprint then
      return .existing previous
    else
      return .conflict "journal_operation_conflict"
  | .unknown => .raise (.value "journal_existing_unknown")
  | .absent =>
    let records := inventory.flatMap Prod.snd
    if records.countP (·.request.binding.runId = runId) ≥ maxOperationsPerRun ∨
        records.length ≥ maxOperations ∨
        ((∀ e ∈ inventory, e.1 ≠ runHash) ∧ inventory.length ≥ maxOperations) then
      return .refused "journal_capacity_exceeded"
    publishIntent m name intent authorize

/-- The part of `create` that opens the journal. -/
def createOpened (intent : IntentRecord) (authorize : Routine Unit) : Routine JournalReply := do
  let name ← act .randomName
  act .makeJournal
  if ¬ (← succeeds (act .lockJournal)) then
    return .unknown "journal_busy"
  createLocked m name intent authorize

/-- `OperationIntentJournal.create`. -/
def createIntent (intent : IntentRecord) (authorize : Routine Unit) : Routine JournalReply := do
  if ¬ intent.valid m.digests then
    return .refused "journal_invalid_intent"
  if ¬ (← succeeds authorize) then
    return .refused "journal_authority_denied"
  (createOpened m intent authorize).catching fun _ => .ret (.unknown "journal_storage_unknown")

/-! ### The target -/

/-- `_live_scope`, and that it allows the target. -/
def scope (binding : WorkerRunBinding) (target : String) : Routine Unit := do
  let allowed ← act (.liveScope binding)
  Routine.require (pathAllowed target allowed) (.value "bridge_file_scope_path_denied")

/-- `LocalBoundedFileReader.read`. -/
def readBounded (binding : WorkerRunBinding) (target : String) : Routine Bytes := do
  scope binding target
  let data ← act (.readFile target)
  scope binding target
  return data

/-- `LocalFilePatchPreflight.check`. -/
def preflight (binding : WorkerRunBinding) (target : String) (baseline : FilePatchBaseline) :
    Routine Unit := do
  let observed ← readBounded binding target
  Routine.require (observed.length = baseline.sizeBytes ∧
    m.digests.content observed = baseline.sha256) (.value "patch_preflight_base_mismatch")
  let checked ← readBounded binding target
  Routine.require (checked = observed) (.value "patch_preflight_base_changed")

/-! ### Requests with their replacement -/

structure FilePatchReplacement where
  baseline : FilePatchBaseline
  replacement : Bytes
  deriving DecidableEq

/-- `metadata`. -/
def FilePatchReplacement.metadata (replacement : FilePatchReplacement) (digests : Digests) :
    PatchReplacement :=
  ⟨replacement.baseline, digests.content replacement.replacement, replacement.replacement.length⟩

/-- The part of `prepare` for a request that has no intent yet. -/
def prepareNew (binding : WorkerRunBinding) (request : WorkerOperationRequest)
    (metadata : PatchReplacement) : Routine JournalReply := do
  let _ ← act (.liveScope binding)
  if ¬ (← succeeds (preflight m binding request.target metadata.baseline)) then
    return .refused "patch_intent_original_unavailable"
  let now ← act .now
  let intent : IntentRecord := ⟨request, metadata, m.digests.request request metadata, now⟩
  Routine.require (intent.valid m.digests) (.value "journal_record_too_large")
  createIntent m intent do
    act (.authorize binding)
    scope binding request.target

/-- `LocalFilePatchIntentService.prepare`. -/
def prepare (binding : WorkerRunBinding) (request : WorkerOperationRequest)
    (replacement : FilePatchReplacement) : Routine JournalReply := do
  if request.kind ≠ .filePatch then
    return .refused "patch_intent_kind_unsupported"
  if request.binding ≠ binding then
    return .refused "patch_intent_scope_mismatch"
  if ¬ (← succeeds (act (.authorize binding))) then
    return .refused "patch_intent_authority_denied"
  let metadata := replacement.metadata m.digests
  Routine.require (patchRequest request ∧ metadata.valid) (.value "journal_invalid_record")
  match ← look (.inspectIntent request.binding.runId request.operationId) with
  | .unknown => return .unknown "journal_inspection_unknown"
  | .recorded intent =>
    if intent.fingerprint = m.digests.request request metadata then
      return .existing intent
    else
      return .conflict "patch_intent_id_conflict"
  | .absent =>
    (prepareNew m binding request metadata).catching fun _ =>
      .ret (.refused "patch_intent_authority_denied")

end OrchKit.Bridge
