import OrchKit.Bridge.Intent

/-! # Applying a patch

A patch is dispatched once: the original is observed and recorded, the replacement staged
beside it and recorded, and only then renamed over the target. Every failure before the
publication is on record is undone; after it only `reconcile` may settle the outcome, and
it never installs anything. Files are named by their paths, descriptors included: nobody
else writes them while a patch holds them open.
-/

namespace OrchKit.Bridge

open Program Routine

inductive PatchStatus
  | applied
  | notApplied
  | conflict
  | refused
  | unknown
  deriving DecidableEq

/-- `_response`. -/
structure PatchReply where
  status : PatchStatus
  historical : Bool := false
  errorCode : String := ""
  deriving DecidableEq

def Disposition.status : Disposition → PatchStatus
  | applied => .applied
  | notApplied => .notApplied

namespace Routine

variable {α : Type}

/-- `try`: the value that is returned, or what is raised. -/
def attempt (p : Routine α) : Routine (Except Exn α) :=
  (p >>= fun a => .ret (.ok a)).catching fun e => .ret (.error e)

end Routine

/-- A patch in the hands of one caller. -/
structure PatchCall where
  binding : WorkerRunBinding
  request : WorkerOperationRequest
  deriving DecidableEq

variable (m : Machine)

namespace PatchCall

variable (call : PatchCall)

def target : String := call.request.target

/-- `_validate`. -/
def validate : Routine Unit := do
  Routine.require (call.request.kind = .filePatch ∧ call.request.binding = call.binding)
    (.value "patch_scope_denied")
  act (.authorize call.binding)

/-- `_PatchTargetHandle.recheck`. -/
def recheck (handle : Handle) (original : Bool) : Routine Unit := do
  scope call.binding call.target
  act (.checkTarget call.target handle original)

/-- `_authorized_recheck`. -/
def authorizedRecheck (handle : Handle) (original : Bool) : Routine Unit := do
  act (.authorize call.binding)
  call.recheck handle original

/-- `LocalFileScope` with `open_patch_target`. -/
def openPatchTarget : Routine Handle := do
  let _ ← act (.liveScope call.binding)
  scope call.binding call.target
  let handle ← act (.openTarget call.target)
  call.recheck handle true
  return handle

/-- `_read_target`. -/
def readTarget : Routine Content := do
  scope call.binding call.target
  let (content, _, _) ← act (.capture call.target)
  return content

/-- `_base`. -/
def base (intent : IntentRecord) : Routine RecordBase := do
  let now ← act .now
  return ⟨call.request, intent.fingerprint, now⟩

/-- `_append`. -/
def append (record : ExecutionRecord) (authorize : Routine Unit) : Routine Unit := do
  let reply ← Bridge.append m record authorize
  match reply.status with
  | .created | .existing => return ()
  | .unknown => .raise (.value "patch_execution_acknowledgement_unknown")
  | _ => .raise (.value "patch_execution_publication_unknown")

/-- `_result`, appended. -/
def settle (intent : IntentRecord) (dispatch : DispatchRecord)
    (publication : Option PublicationRecord) (disposition : Disposition) (kind : BasisKind)
    (target : Content) (authorize : Routine Unit) : Routine PatchReply := do
  let base ← call.base intent
  append m (.result { base with
    dispatchSha256 := m.digests.record (.dispatch dispatch)
    publicationSha256 := publication.map fun p => m.digests.record (.publication p)
    disposition := disposition
    basis := ⟨kind, target, true⟩ }) authorize
  return { status := disposition.status }

/-- `_historical_result`. -/
def historicalResult (chain : Chain) : Routine PatchReply := do
  let renewed ← acknowledgeExisting call.request.binding.runId call.request.operationId chain
    (act (.authorize call.binding)) call.request call.binding
  let result ← demand renewed.result (.other "KeyError" "result")
  return { status := result.disposition.status, historical := true }

/-! ### Application -/

def staging (dispatch : DispatchRecord) : String := beside call.target dispatch.tempName

/-- The loop that writes the replacement; every round writes at least one byte. -/
def writeAll (path : String) : ℕ → Bytes → Routine Unit
  | 0, _ => return ()
  | fuel + 1, bytes => do
    if bytes = [] then
      return ()
    let written ← act (.write path bytes)
    writeAll path fuel (bytes.drop written)

/-- Fill the staging file and record the publication. -/
def stageReplacement (handle : Handle) (replacement : Bytes) (intent : IntentRecord)
    (dispatch : DispatchRecord) (metadata : Metadata) : Routine PublicationRecord := do
  let temp := call.staging dispatch
  writeAll temp replacement.length replacement
  act (.copyMetadata metadata temp)
  let (staged, data, _) ← act (.capture temp)
  Routine.require (data = replacement) (.value "patch_staging_changed")
  act (.sync temp)
  let base ← call.base intent
  let publication : PublicationRecord := { base with
    dispatchSha256 := m.digests.record (.dispatch dispatch)
    staged := staged }
  append m (.publication publication) (call.authorizedRecheck handle true)
  return publication

/-- Rename the staging file over the target and record the outcome. -/
def install (handle : Handle) (intent : IntentRecord) (dispatch : DispatchRecord)
    (publication : PublicationRecord) : Routine PatchReply := do
  let temp := call.staging dispatch
  call.authorizedRecheck handle true
  let (current, _, _) ← act (.capture call.target)
  let (checked, _, _) ← act (.capture temp)
  let named ← act (.entry temp)
  Routine.require
    (sameMaterial current dispatch.original ∧ sameMaterial checked publication.staged ∧
    named = some checked.identity) (.value "patch_publication_changed")
  act (.rename temp call.target)
  act (.sync call.target)
  call.authorizedRecheck handle false
  let observed ← call.readTarget
  let left ← act (.entry temp)
  Routine.require (sameStableMaterial observed publication.staged ∧ left = none)
    (.value "patch_readback_changed")
  call.settle m intent dispatch publication .applied .apply observed
    (call.authorizedRecheck handle false)

/-- Remove the staging file, if it is this call's own. -/
def removeOwned (handle : Handle) (temp : String) (owned : Option FileSignature) :
    Routine Unit := do
  match ← act (.entry temp) with
  | none => return ()
  | some named =>
    Routine.require (owned.any fun o => named.dev = o.dev ∧ named.ino = o.ino)
      (.value "foreign temporary")
    call.authorizedRecheck handle true
    act (.unlink temp)
    act (.sync temp)

/-- What is undone before a publication is on record. -/
def cleanUp (handle : Handle) (intent : IntentRecord) (dispatch : DispatchRecord)
    (owned : Option FileSignature) : Routine PatchReply := do
  let temp := call.staging dispatch
  call.authorizedRecheck handle true
  let (original, _, _) ← act (.capture call.target)
  Routine.require (sameMaterial original dispatch.original) (.value "original changed")
  call.removeOwned handle temp owned
  let left ← act (.entry temp)
  Routine.require (left = none) (.value "temporary not absent")
  let original ← call.readTarget
  Routine.require (sameMaterial original dispatch.original) (.value "original changed")
  call.settle m intent dispatch none .notApplied .failedBeforePublication original
    (call.authorizedRecheck handle true)

def reconciliationRequired : PatchReply :=
  { status := .unknown, errorCode := "patch_reconciliation_required" }

/-- The handler of `_apply_dispatched`, where no publication has been acknowledged. -/
def failed (handle : Handle) (intent : IntentRecord) (dispatch : DispatchRecord)
    (owned : Option FileSignature) : Routine PatchReply := do
  match ← look (.inspect call.request.binding.runId call.request.operationId) with
  | .recorded chain =>
    if chain.publication.isSome then
      return reconciliationRequired
    else
      (call.cleanUp m handle intent dispatch owned).catching fun _ => .ret reconciliationRequired
  | _ => return reconciliationRequired

/-- `_apply_dispatched`. -/
def applyDispatched (handle : Handle) (replacement : Bytes) (intent : IntentRecord)
    (dispatch : DispatchRecord) (metadata : Metadata) : Routine PatchReply := do
  match ← attempt (act (.createFile (call.staging dispatch))) with
  | .error _ => call.failed m handle intent dispatch none
  | .ok owned =>
    match ← attempt (call.stageReplacement m handle replacement intent dispatch metadata) with
    | .error _ => call.failed m handle intent dispatch owned
    | .ok publication =>
      (call.install m handle intent dispatch publication).catching fun _ =>
        .ret reconciliationRequired

/-- The part of `apply` for an operation that has no records yet. -/
def applyNew (replacement : FilePatchReplacement) (intent : IntentRecord) : Routine PatchReply := do
  let handle ← call.openPatchTarget
  let (original, data, metadata) ← act (.capture call.target)
  if original.sha256 ≠ replacement.baseline.sha256 ∨
      data.length ≠ replacement.baseline.sizeBytes then
    return { status := .refused, errorCode := "patch_original_mismatch" }
  let token ← act .randomName
  let base ← call.base intent
  let dispatch : DispatchRecord := { base with
    anchors := handle.anchors
    original := original
    tempName := tempPrefix ++ token ++ tempSuffix }
  append m (.dispatch dispatch) (call.authorizedRecheck handle true)
  call.applyDispatched m handle replacement.replacement intent dispatch metadata

/-- The part of `apply` once the intent is on record. -/
def applyPrepared (replacement : FilePatchReplacement) (intent : IntentRecord) :
    Routine PatchReply := do
  match ← look (.inspect call.request.binding.runId call.request.operationId) with
  | .unknown => return { status := .unknown, errorCode := "patch_execution_unknown" }
  | .recorded chain =>
    let dispatch ← demand chain.dispatch (.other "KeyError" "dispatch")
    if dispatch.intentFingerprint ≠ intent.fingerprint then
      return { status := .conflict, errorCode := "patch_id_conflict" }
    else if chain.result.isSome then
      call.historicalResult chain
    else
      return reconciliationRequired
  | .absent => call.applyNew m replacement intent

/-- The part of `apply` under the runtime lock. -/
def applyLocked (replacement : FilePatchReplacement) : Routine PatchReply := do
  if ¬ (← succeeds call.validate) then
    return { status := .refused, errorCode := "patch_authority_denied" }
  match ← prepare m call.binding call.request replacement with
  | .created intent | .existing intent => call.applyPrepared m replacement intent
  | .conflict errorCode => return { status := .conflict, errorCode := errorCode }
  | .refused errorCode => return { status := .refused, errorCode := errorCode }
  | .unknown errorCode => return { status := .unknown, errorCode := errorCode }

/-- `apply`, by a caller that holds the runtime lock. -/
def apply (replacement : FilePatchReplacement) : Routine PatchReply := do
  match ← attempt (call.applyLocked m replacement) with
  | .ok reply => return reply
  | .error e =>
    let found ← look (.inspect call.binding.runId call.request.operationId)
    if found = .absent ∧ e ≠ .value "patch_execution_acknowledgement_unknown" then
      return { status := .refused, errorCode := "patch_execution_unavailable" }
    else
      return { status := .unknown, errorCode := "patch_execution_unavailable" }

/-! ### Reconciliation -/

/-- Record that the target holds the replacement. -/
def settleApplied (handle : Handle) (intent : IntentRecord) (dispatch : DispatchRecord)
    (publication : PublicationRecord) (named : Option FileSignature) : Routine PatchReply := do
  Routine.require (named = none) (.value "ambiguous staging alias")
  call.authorizedRecheck handle true
  act (.sync call.target)
  let observed ← call.readTarget
  Routine.require (sameStableMaterial observed publication.staged) (.value "readback changed")
  call.settle m intent dispatch publication .applied .reconcileApplied observed
    (call.authorizedRecheck handle true)

/-- Remove the staging file of a publication that has not been installed. -/
def discardStaged (handle : Handle) (temp : String) (publication : PublicationRecord)
    (named : Option FileSignature) : Routine Unit := do
  let named ← demand named (.value "staging missing")
  let (staged, _, _) ← act (.capture temp)
  Routine.require (sameStableMaterial staged publication.staged ∧
    named.dev = staged.identity.dev ∧ named.ino = staged.identity.ino)
    (.value "staging substituted")
  call.authorizedRecheck handle true
  let again ← act (.entry temp)
  Routine.require (again.any fun a => a.dev = named.dev ∧ a.ino = named.ino)
    (.value "staging changed")
  act (.unlink temp)
  act (.sync temp)

/-- Record that the target holds the original. -/
def settleOriginal (handle : Handle) (intent : IntentRecord) (dispatch : DispatchRecord)
    (publication : Option PublicationRecord) (kind : BasisKind) : Routine PatchReply := do
  call.authorizedRecheck handle true
  let left ← act (.entry (call.staging dispatch))
  Routine.require (left = none) (.value "staging not absent")
  let observed ← call.readTarget
  Routine.require (sameMaterial observed dispatch.original) (.value "original changed")
  call.settle m intent dispatch publication .notApplied kind observed
    (call.authorizedRecheck handle true)

/-- The part of `reconcile` for a dispatch without a result. -/
def reconcileDispatched (intent : IntentRecord) (dispatch : DispatchRecord)
    (publication : Option PublicationRecord) : Routine PatchReply := do
  let handle ← call.openPatchTarget
  Routine.require (handle.anchors = dispatch.anchors) (.value "anchors changed")
  let (current, _, _) ← act (.capture call.target)
  let temp := call.staging dispatch
  let named ← act (.entry temp)
  match publication with
  | some publication =>
    if sameStableMaterial current publication.staged then
      call.settleApplied m handle intent dispatch publication named
    else do
      Routine.require (sameMaterial current dispatch.original) (.value "original changed")
      call.discardStaged handle temp publication named
      call.settleOriginal m handle intent dispatch publication .reconcileStaged
  | none =>
    Routine.require (sameMaterial current dispatch.original) (.value "original changed")
    Routine.require (named = none) (.value "unowned staging")
    call.settleOriginal m handle intent dispatch none .reconcileNoPublication

/-- The part of `reconcile` under the runtime lock. -/
def reconcileLocked : Routine PatchReply := do
  call.validate
  match ← look (.inspect call.binding.runId call.request.operationId) with
  | .recorded chain =>
    let dispatch ← demand chain.dispatch (.other "KeyError" "dispatch")
    if dispatch.request ≠ call.request then
      return { status := .conflict, errorCode := "patch_id_conflict" }
    else if chain.result.isSome then
      call.historicalResult chain
    else
      match ← look (.inspectIntent call.binding.runId call.request.operationId) with
      | .recorded intent => call.reconcileDispatched m intent dispatch chain.publication
      | _ => .raise (.value "intent unknown")
  | _ => return { status := .unknown, errorCode := "patch_execution_unknown" }

/-- `reconcile`, by a caller that holds the runtime lock. -/
def reconcile : Routine PatchReply :=
  (call.reconcileLocked m).catching fun _ => .ret reconciliationRequired

end PatchCall

end OrchKit.Bridge
