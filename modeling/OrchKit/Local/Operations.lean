import OrchKit.Local.Protocol
import OrchKit.Ledger.Outside

/-! # What a context does for its worker

A context reads files and directories and owns processes, for one run and only as long as the
authority for the run is there. What the operating system shows of a file, a directory or a
process is given; what becomes of it is decided as in the adapters, which turn every failure of
theirs into an outcome.
-/

namespace OrchKit.Local

open Bridge Json

/-- `WorkerOperationOutcome`, for the operation that was asked for. -/
inductive WorkerOperationOutcome (α : Type)
  | succeeded (output : α)
  | refused (code : String)
  | failed (code : String)
  | unknown (code : String)

def WorkerOperationOutcome.state {α : Type} : WorkerOperationOutcome α → String
  | succeeded _ => "SUCCEEDED"
  | refused _ => "REFUSED"
  | failed _ => "FAILED"
  | unknown _ => "UNKNOWN"

def WorkerOperationOutcome.errorCode {α : Type} : WorkerOperationOutcome α → Option String
  | succeeded _ => none
  | refused code | failed code | unknown code => some code

/-- A request for the adapters, which cannot be made unless it is valid. -/
def operationRequest (binding : WorkerRunBinding) (operationId : String)
    (kind : WorkerOperationKind) (target : String) (maxOutputBytes : ℕ) :
    Checked WorkerOperationRequest :=
  let request := ⟨binding, operationId, kind, target, maxOutputBytes⟩
  if request.valid then .ok request else .error (.value "worker_operation_invalid")

/-- `validate_worker_outcome`, with the number of bytes an output takes. -/
def validateWorkerOutcome {α : Type} (size : α → ℕ) (request : WorkerOperationRequest)
    (outcome : WorkerOperationOutcome α) : Checked (WorkerOperationOutcome α) :=
  match outcome with
  | .succeeded output =>
    if request.maxOutputBytes < size output then .error (.value "worker_outcome_too_large")
    else .ok outcome
  | _ => .ok outcome

/-! ### Files -/

/-- `_file_signature`. -/
structure Signature where
  dev : ℕ
  ino : ℕ
  mode : ℕ
  nlink : ℕ
  size : ℕ
  mtimeNs : ℕ
  ctimeNs : ℕ
  deriving DecidableEq

/-- What a reader is shown of a file: whether the scope opens it, what it is, what each read
returns, what it is afterwards, and what it is when it is opened again; `none` is an error of the
operating system, or of the scope. -/
structure FileView where
  opened : Bool := true
  before : Option Signature := none
  chunks : List (Option Bytes) := []
  after : Option Signature := none
  reopened : Option Signature := none

def readChunkBytes : ℕ := 8192

/-- The reads up to the end of the file, or up to one byte too many. -/
def readAll (limit : ℕ) : Bytes → List (Option Bytes) → WorkerOperationOutcome Bytes
  | data, [] => .succeeded data
  | _, none :: _ => .failed "file_read_io_failed"
  | data, some chunk :: chunks =>
    let piece := chunk.take (min readChunkBytes (limit + 1 - data.length))
    if piece = [] then .succeeded data
    else if limit < (data ++ piece).length then .refused "file_read_too_large"
    else readAll limit (data ++ piece) chunks

/-- `LocalBoundedFileReader.read`. -/
def readFile (view : FileView) (request : WorkerOperationRequest) : WorkerOperationOutcome Bytes :=
  let limit := request.maxOutputBytes
  if ¬ view.opened then .refused "file_read_denied"
  else match view.before with
  | none => .failed "file_read_io_failed"
  | some before =>
    if ¬ isRegular before.mode then .refused "file_read_denied"
    else if limit < before.size then .refused "file_read_too_large"
    else match readAll limit [] view.chunks with
    | .succeeded data => match view.after with
      | none => .failed "file_read_io_failed"
      | some after =>
        if before ≠ after ∨ data.length ≠ before.size then .refused "file_read_changed"
        else match view.reopened with
        | none => .refused "file_read_denied"
        | some checked =>
          if checked ≠ after then .refused "file_read_changed"
          else match validateWorkerOutcome List.length request (.succeeded data) with
            | .ok outcome => outcome
            | .error _ => .refused "file_read_denied"
    | outcome => outcome

/-- What a lister is shown of a directory; a name that is `none` is an error of the operating
system. -/
structure DirectoryView where
  opened : Bool := true
  before : Option (Bool × Signature) := none
  names : List (Option Text) := []
  after : Option Signature := none
  reopened : Option Signature := none

def listing (names : List Text) : Value :=
  object [("entries", .arr ((names.insertionSort fun s t => s.points ≤ t.points).map .str))]

/-- The names as long as they fit, and the bytes they take. -/
def listAll (limit : ℕ) : ℕ → List Text → List (Option Text) →
    WorkerOperationOutcome (ℕ × List Text)
  | used, names, [] => .succeeded (used, names)
  | _, _, none :: _ => .failed "file_list_io_failed"
  | used, names, some name :: rest =>
    let addition := name.write.length + if names = [] then 0 else 1
    if limit < used + addition then .refused "file_list_too_large"
    else listAll limit (used + addition) (names ++ [name]) rest

/-- `LocalBoundedFileLister.list`. -/
def listDirectory (view : DirectoryView) (request : WorkerOperationRequest) :
    WorkerOperationOutcome Bytes :=
  let limit := request.maxOutputBytes
  if ¬ view.opened then .refused "file_list_denied"
  else match view.before with
  | none => .failed "file_list_io_failed"
  | some (isDirectory, before) =>
    if ¬ isDirectory then .refused "file_list_denied"
    else if limit < "\x7b\"entries\":[]\x7d".length then .refused "file_list_too_large"
    else match listAll limit "\x7b\"entries\":[]\x7d".length [] view.names with
    | .succeeded (used, names) => match view.after with
      | none => .failed "file_list_io_failed"
      | some after =>
        if before ≠ after then .refused "file_list_changed"
        else match view.reopened with
        | none => .refused "file_list_denied"
        | some checked =>
          if checked ≠ after then .refused "file_list_changed"
          else
            let output := ((listing names).write fun _ => []).map fun c => UInt8.ofNat c.toNat
            if output.length ≠ used then .refused "file_list_changed"
            else match validateWorkerOutcome List.length request (.succeeded output) with
              | .ok outcome => outcome
              | .error _ => .refused "file_list_denied"
    | .refused code => .refused code
    | .failed code => .failed code
    | .unknown code => .unknown code

/-! ### Processes -/

/-- `_OwnedChild`, as far as a reply tells of it. -/
structure Child where
  settled : Bool
  recorded : Bool
  isUnknown : Bool
  exitCode : Option ℤ
  reason : Option String
  output : Bytes
  total : ℕ

/-- The body of a reply on a process. -/
structure ProcessBody where
  handle : String
  exited : Bool
  exitCode : Option ℤ
  reason : Option String
  cursor : ℕ
  data : Bytes
  total : ℕ
  retained : ℕ
  truncated : Bool
  hasMore : Bool

def ProcessBody.nextCursor (body : ProcessBody) : ℕ := body.cursor + body.data.length

/-- `base64.b64encode`. -/
def base64 : Bytes → List Char
  | [] => []
  | [a] => [digit (a.toNat / 4), digit (a.toNat % 4 * 16), '=', '=']
  | [a, b] => [digit (a.toNat / 4), digit (a.toNat % 4 * 16 + b.toNat / 16),
      digit (b.toNat % 16 * 4), '=']
  | a :: b :: c :: rest =>
    digit (a.toNat / 4) :: digit (a.toNat % 4 * 16 + b.toNat / 16) ::
      digit (b.toNat % 16 * 4 + c.toNat / 64) :: digit (c.toNat % 64) :: base64 rest
where
  digit (n : ℕ) : Char :=
    ("ABCDEFGHIJKLMNOPQRSTUVWXYZabcdefghijklmnopqrstuvwxyz0123456789+/".toList)[n]?.getD '='

example : base64 [77, 97] = "TWE=".toList := by decide

/-- What a body says, with its cursors as they are sent. -/
def ProcessBody.fields (body : ProcessBody) (cursor nextCursor : Value) : Value :=
  object [("schema_version", nat 1), ("handle", text body.handle),
    ("process_state", text (if body.exited then "EXITED" else "RUNNING")),
    ("exit_code", (body.exitCode.map fun i => .number (.int i)).getD .null),
    ("reason", (body.reason.map text).getD .null), ("cursor", cursor), ("next_cursor", nextCursor),
    ("output_base64", text (String.ofList (base64 body.data))),
    ("total_output_bytes", nat body.total), ("retained_output_bytes", nat body.retained),
    ("truncated", .bool body.truncated), ("has_more", .bool body.hasMore)]

/-- How many bytes `_body` takes. -/
def ProcessBody.size (body : ProcessBody) : ℕ :=
  ((body.fields (nat body.cursor) (nat body.nextCursor)).write fun _ => []).length

/-- `_minimum_fits`. -/
def minimumFits (request : WorkerOperationRequest) (handle : String) : Bool :=
  ({ handle, exited := false, exitCode := some (-2147483648), reason := some "owner_cleanup"
     cursor := 65536, data := [], total := 9223372036854775807, retained := 65536
     truncated := false, hasMore := false } : ProcessBody).size ≤ request.maxOutputBytes

/-- The search of `_envelope` for the greatest count that fits. -/
def fitting (fits : ℕ → Bool) (low high : ℕ) : ℕ :=
  if low < high then
    let mid := (low + high + 1) / 2
    if fits mid then fitting fits mid high else fitting fits low (mid - 1)
  else low
termination_by high - low

/-- `_envelope`. -/
def envelope (request : WorkerOperationRequest) (handle : String) (child : Child) (cursor : ℕ) :
    Checked (WorkerOperationOutcome ProcessBody) :=
  if child.isUnknown then .ok (.unknown "process_exit_unconfirmed")
  else
    let data := child.output.drop cursor
    let ended : Bool := child.settled && child.recorded
    let body : ℕ → ProcessBody := fun count =>
      { handle, exited := ended, exitCode := if ended then child.exitCode else none
        reason := child.reason, cursor, data := data.take count, total := child.total
        retained := child.output.length, truncated := child.output.length < child.total
        hasMore := count < data.length }
    if request.maxOutputBytes < (body 0).size then .ok (.refused "process_envelope_too_small")
    else validateWorkerOutcome ProcessBody.size request (.succeeded
      (body (fitting (fun n => (body n).size ≤ request.maxOutputBytes) 0 data.length)))

/-- What the owner of the processes comes to: it refuses, has something unresolved, or has a
child to report on. -/
inductive ProcessView
  | refused (code : String)
  | unresolved (code : String)
  | child (handle : String) (child : Child)

/-- `_operate`: what is raised while it looks for a child is turned into a refusal, so that only
the reply is left to make. -/
def operateProcess (view : ProcessView) (request : WorkerOperationRequest) (cursor : ℕ) :
    WorkerOperationOutcome ProcessBody :=
  match view with
  | .refused code => .refused code
  | .unresolved code => .unknown code
  | .child handle child =>
    if ¬ minimumFits request handle then .refused "process_envelope_too_small"
    else if child.output.length < cursor then .refused "process_cursor_denied"
    else match envelope request handle child cursor with
      | .ok outcome => outcome
      | .error _ => .refused "process_runtime_denied"

end OrchKit.Local
