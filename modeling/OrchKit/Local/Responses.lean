import OrchKit.Local.Operations

/-! # The responses of the local service

What a request comes to behind a route. All that can be raised on the way is that the authority is
gone, or that an operation could not be made from what the request says.
-/

namespace OrchKit.Local

open Bridge Json Except

/-- A route, and the context that only its token selects. -/
structure Route where
  token : String
  sessionId : String
  binding : WorkerRunBinding
  bound : binding.valid
  retired : Bool := false
  peer : Option ℕ := none

/-- What the outside answers while a request is served: whether the authority is there each time
it is asked for, and what there is to see of files and processes. -/
structure Native where
  before : Bool := true
  after : Bool := true
  status : Bool := true
  file : FileView := {}
  directory : DirectoryView := {}
  process : ProcessView := .refused "process_handle_denied"

def requireLive (authority : Bool) : Checked Unit :=
  require (authority = true) (.value "bridge_broker_authority_denied")

/-- What a peer has asked for. -/
inductive Asked (limits : LocalServiceLimits)
  | hello (request : Hello)
  | file (request : LocalRequest limits)
  | process (request : ProcessRequest limits)

variable {limits : LocalServiceLimits}

def Asked.requestId : Asked limits → String
  | hello request => request.requestId
  | file request => request.requestId
  | process request => request.requestId

def Asked.operation? : Asked limits → Option String
  | hello _ => none
  | file request => some request.operation.text
  | process request => some request.operation.text

variable (svc : Service)

/-- `_refusal`. -/
def refusal (code : String) (request : Option (Asked limits)) (route : Option Route) : Value :=
  object ([("schema_version", nat 1),
      ("request_id", text ((request.map Asked.requestId).getD "invalid")),
      ("state", text "REFUSED"), ("output_base64", text ""), ("error_code", text code)] ++
    ((request.bind Asked.operation?).map fun operation => ("operation", text operation)).toList ++
    (route.map fun route => [("session_id", text route.sessionId),
      ("service_incarnation", text svc.incarnation)]).getD [])

/-! ### Files -/

section Files

variable (route : Route) (request : LocalRequest limits)

/-- `_response`, with what it is to say besides. -/
def response (output : String) (status : Option Value) : Value :=
  object ([("schema_version", nat 1), ("request_id", text request.requestId),
      ("session_id", text route.sessionId), ("service_incarnation", text svc.incarnation),
      ("operation", text request.operation.text), ("state", text "SUCCEEDED"),
      ("output_base64", text output), ("error_code", .null)] ++
    (status.map fun status => ("status", status)).toList)

/-- The status of a session. -/
def sessionStatus : Value :=
  object [("binding", object [("project_id", text route.binding.projectId),
      ("writer_key", text route.binding.writerKey), ("task_id", text route.binding.taskId),
      ("run_id", text route.binding.runId), ("attempt", nat route.binding.attempt)]),
    ("native", object [("run_state", text "RUNNING"), ("task_state", text "IN_PROGRESS")]),
    ("service_state", text "SERVING"), ("service_incarnation", text svc.incarnation),
    ("supported_operations", .arr (localOperations.map text)),
    ("limits", object [("max_frame_bytes", nat svc.limits.maxFrameBytes),
      ("min_response_bytes", nat svc.limits.minResponseBytes),
      ("max_response_bytes", nat svc.limits.maxResponseBytes),
      ("io_timeout_sec", .number svc.limits.ioTimeoutSec),
      ("idle_timeout_sec", .number svc.limits.idleTimeoutSec)])]

/-- `native_payload_budget`. -/
def nativePayloadBudget (empty : Value) (budget : ℕ) : ℕ :=
  (budget - (encodePayload svc empty).length) / 4 * 3

/-- `__file_operation`. -/
def fileOperation (a : Native) (operation : WorkerOperationRequest) :
    Checked (WorkerOperationOutcome Bytes) := do
  require (operation.binding = route.binding) (.value "worker_operation_scope_mismatch")
  requireLive a.before
  let outcome := if operation.kind = .fileRead then readFile a.file operation
    else listDirectory a.directory operation
  requireLive a.after
  validateWorkerOutcome List.length operation outcome

/-- The response, or a refusal in its place where it does not fit. -/
def fitted (v : Value) : Value :=
  if request.maxResponseBytes < (encodePayload svc v).length then
    refusal svc "local_bridge_response_too_large" (some (.file request)) (some route)
  else v

/-- `_dispatch_context`. -/
def dispatchContext (a : Native) : Checked Value :=
  let refused (code : String) : Value := refusal svc code (some (.file request)) (some route)
  match request.operation with
  | .status => do
    requireLive a.status
    return fitted svc route request (response svc route request "" (some (sessionStatus svc route)))
  | .file kind =>
    let raw := nativePayloadBudget svc (response svc route request "" none) request.maxResponseBytes
    if raw < 1 then .ok (refused "local_bridge_response_too_large")
    else do
      let operation ← operationRequest route.binding request.requestId kind
        (request.target.getD "") raw
      match ← fileOperation route a operation with
      | .succeeded output =>
        return fitted svc route request
          (response svc route request (String.ofList (base64 output)) none)
      | .failed code => return refused (
          if code ∈ ["file_read_too_large", "file_list_too_large"] then
            "local_bridge_response_too_large" else "local_bridge_io_failed")
      | .refused code | .unknown code => return refused (
          if code ∈ ["file_read_too_large", "file_list_too_large"] then
            "local_bridge_response_too_large" else "local_bridge_operation_denied")

end Files

/-! ### Processes -/

section Processes

variable (route : Route)

/-- `sign_operation_id`. -/
def signOperationId (nonce : List Char) : List Char :=
  nonce ++ '.' :: svc.hmac route.token.toList (route.sessionId.toList ++ ':' :: nonce)

/-- `operation_id_matches`. -/
def operationIdMatches (operationId : String) : Bool :=
  '.' ∈ operationId.toList &&
    operationId.toList = signOperationId svc route (operationId.toList.takeWhile (· ≠ '.'))

/-- `_cursor`. -/
def cursorOf (handle : String) (offset : ℕ) : List Char :=
  let number := Nat.toDigits 16 offset
  number ++ '.' :: svc.hmac route.token.toList
    (route.sessionId.toList ++ ':' :: handle.toList ++ ':' :: number)

def ofHex (digits : List Char) : ℕ :=
  digits.foldl (fun n c => n * 16 + if c.isDigit then c.toNat - 48 else c.toNat - 87) 0

/-- `_offset`. -/
def offsetOf? (handle : String) : Option String → Option ℕ
  | none => some 0
  | some cursor =>
    let offset := ofHex (cursor.toList.takeWhile (· ≠ '.'))
    if 65536 < offset ∨ cursor.toList ≠ cursorOf svc route handle offset then none else some offset

variable (request : ProcessRequest limits)

/-- `_result`. -/
def processResult (state : String) (result : Value) (code : Option String) : Value :=
  object [("schema_version", nat 2), ("request_id", text request.requestId),
    ("session_id", text route.sessionId), ("service_incarnation", text svc.incarnation),
    ("operation", text request.operation.text), ("operation_id", text request.operationId),
    ("state", text state), ("result", result), ("error_code", (code.map text).getD .null)]

/-- The refusal of a process transport, once the peer has a route. -/
def processRefusal (code : String) (asked : Option (Asked limits)) : Value :=
  let request? : Option (ProcessRequest limits) := match asked with
    | some (.process request) => some request
    | _ => none
  object [("schema_version", nat 2),
    ("request_id", text ((request?.map ProcessRequest.requestId).getD "invalid")),
    ("session_id", text route.sessionId), ("service_incarnation", text svc.incarnation),
    ("operation", (request?.map fun request => text request.operation.text).getD .null),
    ("operation_id", (request?.map fun request => text request.operationId).getD .null),
    ("state", text "REFUSED"), ("result", .null), ("error_code", text code)]

/-- `__process_operation`. -/
def processOperation (a : Native) (operation : WorkerOperationRequest) (cursor : ℕ) :
    Checked (WorkerOperationOutcome ProcessBody) := do
  require (operation.binding = route.binding) (.value "worker_operation_scope_mismatch")
  requireLive a.before
  let outcome := operateProcess a.process operation cursor
  requireLive a.after
  validateWorkerOutcome ProcessBody.size operation outcome

/-- What the operation of a process request may put out at most. -/
def processBudget : ℕ := min 65536 (request.maxResponseBytes - 1024)

/-- The part of `_ProcessTransport.dispatch` between the two looks at the authority. -/
def dispatchProcess (a : Native) : Checked Value :=
  if ¬ operationIdMatches svc route request.operationId then
    .ok (processResult svc route request "REFUSED" .null (some "process_operation_denied"))
  else match offsetOf? svc route request.target request.cursor with
  | none => .ok (processResult svc route request "REFUSED" .null (some "process_cursor_denied"))
  | some offset => do
    let operation ← operationRequest route.binding request.operationId request.operation
      request.target (processBudget request)
    let outcome ← processOperation route a operation offset
    let result := match outcome with
      | .succeeded body =>
        body.fields (text (String.ofList (cursorOf svc route body.handle body.cursor)))
          (text (String.ofList (cursorOf svc route body.handle body.nextCursor)))
      | _ => .null
    return processResult svc route request outcome.state result outcome.errorCode

end Processes

end OrchKit.Local
