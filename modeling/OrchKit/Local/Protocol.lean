import OrchKit.Bridge.Records
import OrchKit.Data.Json

/-! # The protocol of the local service

Requests and responses are objects of JSON, each in a frame that its length goes before. What a
peer sends is checked key by key before anything is done about it; a request that has passed
carries what it was checked for.
-/

namespace OrchKit.Local

open Bridge Json

structure LocalServiceLimits where
  maxFrameBytes : ℕ := 65536
  minResponseBytes : ℕ := 4096
  maxResponseBytes : ℕ := 65536
  ioTimeoutSec : Number := .real 5
  idleTimeoutSec : Number := .real 30
  responses : 1 ≤ minResponseBytes ∧ minResponseBytes ≤ maxResponseBytes := by decide
  frames : maxResponseBytes ≤ maxFrameBytes ∧ maxFrameBytes ≤ 65536 := by decide
  timeouts : 0 < ioTimeoutSec.value ∧ ioTimeoutSec.value ≤ 5 ∧
    0 < idleTimeoutSec.value ∧ idleTimeoutSec.value ≤ 30 := by decide

/-- The transports: `_Transport` serves files, `_ProcessTransport` processes. -/
inductive Flavour
  | readOnly
  | process
  deriving DecidableEq

/-- What does not change while a service runs, with the standard functions it uses: `json.loads`
of a payload in UTF-8, the digits of a floating point number, and an HMAC in hexadecimal. -/
structure Service where
  flavour : Flavour
  limits : LocalServiceLimits
  incarnation : String
  loads : Bytes → Option Value
  real : ℚ → List Char
  hmac : List Char → List Char → Digest

/-! ### Frames -/

abbrev Fields := List (Text × Value)

variable (svc : Service)

def decodePayload (payload : Bytes) : Option Fields :=
  match svc.loads payload with
  | some (.obj fields) => if (Value.obj fields).unique then some fields else none
  | _ => none

def encodePayload (v : Value) : Bytes := (v.write svc.real).map fun c => UInt8.ofNat c.toNat

/-- `struct.pack("!I", n)`. -/
def packSize (n : ℕ) : Bytes := [n / 2 ^ 24, n / 2 ^ 16, n / 2 ^ 8, n].map UInt8.ofNat

/-- `struct.unpack("!I", header)`. -/
def unpackSize (header : Bytes) : ℕ := header.foldl (fun n b => n * 256 + b.toNat) 0

def frame (v : Value) : Bytes := packSize (encodePayload svc v).length ++ encodePayload svc v

/-! ### Requests -/

def localOperations : List String := ["session.status", "file.read", "file.list"]

def isRouting (s : String) : Bool :=
  24 ≤ s.length && s.length ≤ 200 && s.toList.all fun c => c.isAlphanum || c ∈ ['_', '-']

variable (fields : Fields)

def text? (name : String) : Option String := (field fields name).bind Value.text?

/-- `_common`: the identifier of a request with these keys. -/
def common (version : ℤ) (names : List String) : Option String :=
  if keysAre fields names ∧ (field fields "schema_version").bind Value.int? = some version then
    (text? fields "request_id").filter fun requestId => identifier 200 isWord requestId
  else none

structure Hello where
  requestId : String
  transportToken : String

def validateHello : Option Hello := do
  let requestId ← common fields 1 ["schema_version", "request_id", "type", "transport_token"]
  let token ← text? fields "transport_token"
  if text? fields "type" = some "hello" ∧ isRouting token then some ⟨requestId, token⟩ else none

inductive LocalOperation
  | status
  | file (kind : WorkerOperationKind)
  deriving DecidableEq

def LocalOperation.text : LocalOperation → String
  | status => "session.status"
  | file kind => kind.text

def LocalOperation.ofText? (s : String) : Option LocalOperation :=
  [.status, .file .fileRead, .file .fileList].find? fun operation => operation.text = s

/-- The syntactic check of a target, against a binding that is no run's. -/
def targetChecked (requestId : String) (kind : WorkerOperationKind) (target : String) : Bool :=
  WorkerOperationRequest.valid
    ⟨⟨"local", "local", "local", "local", 1⟩, requestId, kind, target, 1⟩

/-- A request for files that has been checked. -/
structure LocalRequest (limits : LocalServiceLimits) where
  requestId : String
  sessionId : String
  operation : LocalOperation
  target : Option String
  maxResponseBytes : ℕ
  within : limits.minResponseBytes ≤ maxResponseBytes ∧ maxResponseBytes ≤ limits.maxResponseBytes
  targeted : ∀ kind, operation = .file kind →
    ∃ t, target = some t ∧ targetChecked requestId kind t

/-- The number of bytes a request leaves for its response. -/
def budget? (limits : LocalServiceLimits) :
    Option { n : ℕ // limits.minResponseBytes ≤ n ∧ n ≤ limits.maxResponseBytes } :=
  ((field fields "max_response_bytes").bind Value.int?).bind fun i =>
    if h : limits.minResponseBytes ≤ i ∧ i ≤ limits.maxResponseBytes then
      some ⟨i.toNat, by omega⟩
    else none

def validateRequest (limits : LocalServiceLimits) : Option (LocalRequest limits) := do
  let requestId ← common fields 1
    ["schema_version", "request_id", "session_id", "operation", "target", "max_response_bytes"]
  let sessionId ← (text? fields "session_id").filter isRouting
  let operation ← (text? fields "operation").bind LocalOperation.ofText?
  let n ← budget? fields limits
  match operation with
  | .status =>
    if (field fields "target").any Value.isNull then
      some ⟨requestId, sessionId, .status, none, n, n.2, fun _ h => by cases h⟩
    else none
  | .file kind =>
    if h : ∃ t, text? fields "target" = some t ∧ targetChecked requestId kind t then
      some ⟨requestId, sessionId, .file kind, text? fields "target", n, n.2,
        fun _ he => by cases he; exact h⟩
    else none

/-! ### Requests for processes -/

def processOperations : List WorkerOperationKind := [.processStart, .processPoll, .processTerminate]

/-- Digits before a dot and a digest after it. -/
def isSigned (digits : ℕ → Bool) (s : String) : Bool :=
  match s.toList.splitOn '.' with
  | [number, digest] => digits number.length && number.all isHex && isDigest digest
  | _ => false

def isOperationId (s : String) : Bool := isSigned (fun n => n = 64) s

def isCursor (s : String) : Bool := isSigned (fun n => 1 ≤ n && n ≤ 5) s

/-- A request for a process that has been checked. -/
structure ProcessRequest (limits : LocalServiceLimits) where
  requestId : String
  sessionId : String
  operationId : String
  operation : WorkerOperationKind
  target : String
  cursor : Option String
  maxResponseBytes : ℕ
  known : operation ∈ processOperations
  identified : isOperationId operationId ∧ identifier 200 isWord target
  within : limits.minResponseBytes ≤ maxResponseBytes ∧ maxResponseBytes ≤ limits.maxResponseBytes

/-- The cursor of a request: only a poll may have one. -/
def cursor? (operation : WorkerOperationKind) : Option (Option String) :=
  match field fields "cursor" with
  | some .null => some none
  | some v => ((v.text?.filter isCursor).filter fun _ => operation = .processPoll).map some
  | none => none

def validateProcessRequest (limits : LocalServiceLimits) : Option (ProcessRequest limits) := do
  let requestId ← common fields 2 ["schema_version", "request_id", "session_id", "operation_id",
    "operation", "target", "cursor", "max_response_bytes"]
  let sessionId ← (text? fields "session_id").filter isRouting
  let operationId ← text? fields "operation_id"
  let target ← text? fields "target"
  let text ← text? fields "operation"
  let operation ← processOperations.find? fun operation => operation.text = text
  let cursor ← cursor? fields operation
  let n ← budget? fields limits
  if h : operation ∈ processOperations ∧ isOperationId operationId ∧
    identifier 200 isWord target then
    some ⟨requestId, sessionId, operationId, operation, target, cursor, n, h.1, h.2, n.2⟩
  else none

end OrchKit.Local
