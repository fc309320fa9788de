import OrchKit.Ledger.Commands

/-! # Lifecycle routes

The route of a grant: what a process that holds one may ask of it. A route that has
claimed, or is opened on a grant whose claim is ready, is bound to the run. Every
call looks at the grant again first, statement by statement; whatever goes wrong in
a claim, a checkpoint or a disposition, the answer is that it is not known.
-/

namespace OrchKit

open Program Script

/-- The run a route is bound to; the rest of its `WorkerRunBinding` is the grant's. -/
structure RouteBinding where
  runId : RunId
  attempt : ℕ

/-- What a route keeps between its calls. -/
structure Route where
  binding : Option RouteBinding := none
  closed : Bool := false

namespace Script

def selectGrant (grantId : String) : Script (Option Grant) := .call (.selectGrant grantId) ofChecked

def selectOperation (grantId operationId : String) : Script (Option LifecycleOperation) :=
  .call (.selectOperation grantId operationId) ofChecked

/-- `_matches` on the task of a grant. -/
def matchTask (spec : LifecycleGrantSpec) : Script Bool := .call (.matchTask spec) .ret

def operationDigest (operationId : String) : Script Hash :=
  .call (.operationDigest operationId) .ret

def prepareCheckpoint (grantId operationId reason processState : String) (binding : RouteBinding) :
    Script CheckpointStart :=
  .call (.prepareCheckpoint grantId operationId reason processState binding.runId binding.attempt)
    ofChecked

/-- `__grant` outside a transaction. -/
def liveGrant (grantId : String) : Script Grant := do
  let grant ← demand (← selectGrant grantId) (.value "lifecycle_grant_denied")
  Script.require (grant.status ≠ .revoked) (.value "lifecycle_grant_denied")
  return grant

/-- `except Exception`: a reply that whatever went wrong is not known. -/
def orUnknown {α : Type} (a : α) (p : Script (Reply × α)) : Script (Reply × α) :=
  p.catching fun _ => .ret (unknownReply, a)

end Script

namespace Route

variable (grantId : String)

/-- The run of a claim that has one is still the grant's. -/
def checkRun (spec : LifecycleGrantSpec) (claim : LifecycleOperation) : Script Unit := do
  if claim.phase = .pending ∨ claim.phase = .ready then
    let runId ← demand claim.runId (.value "lifecycle_binding_denied")
    let run ← demand (← selectRun runId) (.value "lifecycle_binding_denied")
    Script.require (claim.attempt = some spec.attempt ∧ run.taskId = spec.taskId ∧
      run.workerId = spec.workerId ∧ run.attempt = spec.attempt) (.value "lifecycle_binding_denied")

/-- The part of `status` that looks at the records. -/
def checkRecords (route : Route) : Script Unit := do
  let grant ← liveGrant grantId
  if grant.status = .reserved ∨ grant.status = .consumed then
    let claimId ← demand grant.claimId (.value "lifecycle_record_invalid")
    let claim ← demand (← selectOperation grantId claimId) (.value "lifecycle_record_invalid")
    Script.require (claim.kind = .claim ∧ (grant.status = .reserved → claim.phase = .prepared) ∧
      (grant.status = .consumed → claim.phase ≠ .prepared)) (.value "lifecycle_record_invalid")
    checkRun grant.spec claim
    match route.binding with
    | none =>
      Script.require (claim.phase ≠ .ready) (.value "lifecycle_readmission_required")
    | some binding =>
      Script.require (claim.phase = .ready ∧ claim.runId = some binding.runId ∧
        claim.attempt = some binding.attempt ∧ binding.attempt = grant.spec.attempt)
        (.value "lifecycle_binding_denied")
      let matching ← matchTask grant.spec
      Script.require matching (.value "lifecycle_binding_denied")
  else
    Script.require route.binding.isNone (.value "lifecycle_binding_denied")

def status (route : Route) : Script Unit := do
  Script.require (¬ route.closed) (.value "lifecycle_route_closed")
  checkRecords grantId route
  match route.binding with
  | none => return ()
  | some binding => ask (.requireSession binding.runId binding.attempt)

/-- `_admit`: a route opened on a grant whose claim is ready is bound to its run. -/
def admitRoute : Script Route := do
  let grant ← liveGrant grantId
  if grant.status ≠ .consumed then
    return {}
  let claimId ← demand grant.claimId (.value "lifecycle_record_invalid")
  let record ← demand (← selectOperation grantId claimId) (.value "lifecycle_record_invalid")
  Script.require (record.kind = .claim) (.value "lifecycle_record_invalid")
  Script.require (record.phase = .pending ∨ record.phase = .ready →
    record.attempt = some grant.spec.attempt) (.value "lifecycle_binding_denied")
  match record.phase, record.runId with
  | .ready, some runId =>
    Script.require (isRunId runId) (.value "worker_operation_invalid_run_id")
    let _ ← ask (.openSession runId grant.spec.attempt)
    let route : Route := { binding := some ⟨runId, grant.spec.attempt⟩ }
    (status grantId route).catching fun e => do
      let _ ← ask (.closeSession runId grant.spec.attempt)
      .raise e
    return route
  | _, _ =>
    status grantId {}
    return {}

/-- What a claim does once its run is committed. -/
def publishRun (operationId : String) (binding : RouteBinding) (lease : String) : Script Reply := do
  let _ ← ask (.writeCapability binding.runId lease)
  Script.require (isRunId binding.runId) (.value "worker_operation_invalid_run_id")
  let _ ← ask (.openSession binding.runId binding.attempt)
  let ready : Script Reply := do
    let _ ← ask (.requireSession binding.runId binding.attempt)
    transact (.readyGrant grantId operationId binding.runId binding.attempt)
  ready.catching fun e => do
    let _ ← ask (.closeSession binding.runId binding.attempt)
    .raise e

/-- `__claim`, with the route as it leaves it. -/
def claimGrant (operationId : String) (route : Route) : Script (Reply × Route) := do
  let reserved ← transact (.reserveGrant grantId operationId)
  if reserved.status ≠ .claimed then
    return (reserved, route)
  let consumed ← transact (.consumeGrant grantId operationId)
  match consumed.runId, consumed.attempt, consumed.lease with
  | some runId, some attempt, some lease =>
    orUnknown route do
      let reply ← publishRun grantId operationId ⟨runId, attempt⟩ lease
      let bound := { route with binding := some ⟨runId, attempt⟩ }
      orUnknown bound (status grantId bound >>= fun _ => .ret (reply, bound))
  | _, _, _ => return (consumed, route)

def claim (operationId : String) (route : Route) : Script (Reply × Route) := do
  Script.require (isOperationId operationId) (.value "lifecycle_invalid_operation_id")
  orUnknown route do
    status grantId route
    let (reply, bound) ← claimGrant grantId operationId route
    if reply.status = .ok then
      orUnknown bound (status grantId bound >>= fun _ => .ret (reply, bound))
    else
      return (reply, bound)

def checkpointValid (reason processState : String) : Bool :=
  strip reason ≠ "" && (strip reason).length ≤ 500 && (strip reason).utf8ByteSize ≤ 2000 &&
    processState ∈ ["active", "unknown"]

def checkpoint (operationId reason processState : String) (route : Route) :
    Script (Reply × Route) := do
  Script.require (isOperationId operationId) (.value "lifecycle_invalid_operation_id")
  if ¬ checkpointValid reason processState then
    return (refusedReply "lifecycle_invalid_checkpoint", route)
  let reason := strip reason
  orUnknown route do
    status grantId route
    match route.binding with
    | none => return (refusedReply "lifecycle_not_bound", route)
    | some binding =>
      match ← prepareCheckpoint grantId operationId reason processState binding with
      | .answered reply => return (reply, route)
      | .replayed reply =>
        status grantId route
        return (reply, route)
      | .prepared grant claim =>
        let reply ← transact (.recordCheckpoint grantId operationId reason processState
          binding.runId binding.attempt grant claim)
        status grantId route
        return (reply, route)

/-- The record of a checkpoint is that of the run the grant's claim has made ready. -/
def ofReadyClaim (grant : Grant) (record : LifecycleOperation) : Script Bool := do
  let claimId ← demand grant.claimId (.value "lifecycle_record_invalid")
  match ← selectOperation grantId claimId with
  | none => return false
  | some claim =>
    return claim.kind = .claim ∧ claim.phase = .ready ∧ record.runId = claim.runId ∧
      record.attempt = claim.attempt

/-- What `disposition` finds in the records; `none` if it finds no disposition there. -/
def recorded (operationId : String) : Script (Option Reply) := do
  let grant ← liveGrant grantId
  match ← selectOperation grantId operationId with
  | none => return none
  | some record =>
    if grant.status ≠ .reserved ∧ grant.status ≠ .consumed then
      return none
    if record.attempt ≠ none ∧ record.attempt ≠ some grant.spec.attempt then
      return none
    match record.kind with
    | .claim => return if grant.claimId = some operationId then some record.reply else none
    | .checkpoint =>
      let anchor ← operationDigest operationId
      if anchor ∉ grant.checkpointIds then
        return none
      return if ← ofReadyClaim grantId grant record then some record.reply else none

def disposition (operationId : String) (route : Route) : Script (Reply × Route) := do
  Script.require (isOperationId operationId) (.value "lifecycle_invalid_operation_id")
  orUnknown route do
    status grantId route
    match ← recorded grantId operationId with
    | none => return (unknownReply, route)
    | some reply =>
      status grantId route
      return (reply, route)

def close (route : Route) : Script (Reply × Route) := do
  if ¬ route.closed then
    match route.binding with
    | some binding => ask (.closeSession binding.runId binding.attempt)
    | none => pure ()
  return ({ status := .ok }, { route with closed := true })

end Route

inductive RouteCall
  | claim (operationId : String)
  | checkpoint (operationId reason processState : String)
  | disposition (operationId : String)
  | status
  | close

def RouteCall.script (grantId : String) : RouteCall → Route → Script (Reply × Route)
  | claim operationId, route => Route.claim grantId operationId route
  | checkpoint operationId reason processState, route =>
    Route.checkpoint grantId operationId reason processState route
  | disposition operationId, route => Route.disposition grantId operationId route
  | status, route => Route.status grantId route >>= fun _ => .ret ({ status := .ok }, route)
  | close, route => Route.close route

/-- Make calls on a route, one after another; a call that raises does not stop the next. -/
def routeCalls (grantId : String) : List RouteCall → Route → Script Reply
  | [], _ => .ret { status := .ok }
  | call :: calls, route => do
    let next ← ((call.script grantId route) >>= fun answer => .ret answer.2).catching
      fun _ => .ret route
    routeCalls grantId calls next

/-- `open_route`, and what its holder does with the route. -/
def lifecycleRoute (grantId : String) (calls : List RouteCall) : Script Reply := do
  Script.require (isGrantId grantId) (.value "lifecycle_invalid_grant")
  let route ← Route.admitRoute grantId
  routeCalls grantId calls route

end OrchKit
