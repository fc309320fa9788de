import OrchKit.Bridge.Records
import OrchKit.Ledger.Declared

/-! # Archived records

The intents and the records of patch executions in an archive are JSON values that anything may have
written. Each is read field by field into a record of the bridge and refused with a `ValueError` if
it is none. One field is used before its size is known: asking whether a mode is that of a regular
file raises an `OverflowError` for an integer that no mode can be.
-/

namespace OrchKit.Archive

open Except Json Bridge

/-- What a verification runs with: who it runs as, the least integer that is too large for a mode,
and the digests it takes. -/
structure Verifier where
  uid : ℕ
  modeLimit : ℕ
  digests : Digests

/-! ### Fields -/

def fields? : Value → Option Fields
  | .obj fields => some fields
  | _ => none

def object? (v : Value) (names : List String) : Option Fields :=
  (fields? v).filter fun fields => keysAre fields names

/-- An integer that is not negative. -/
def nat? (v : Value) : Option ℕ :=
  match v.int? with
  | some (.ofNat n) => some n
  | _ => none

def digest? (v : Value) : Option Digest := (v.text?.map String.toList).filter isDigest

/-! ### Times -/

def isTimeText (s : List Char) : Bool :=
  let template := "0000-00-00T00:00:00.000000Z".toList
  s.length = template.length &&
    (template.zip s).all fun e => if e.1 = '0' then e.2.isDigit else e.1 = e.2

/-- The number that `n` digits from the `i`th character on write. -/
def numberAt (s : List Char) (i n : ℕ) : ℕ :=
  ((s.drop i).take n).foldl (fun k c => k * 10 + (c.toNat - '0'.toNat)) 0

def isLeap (year : ℕ) : Bool := year % 4 = 0 && (year % 100 ≠ 0 || year % 400 = 0)

def monthDays (year : ℕ) : List ℕ :=
  [31, if isLeap year then 29 else 28, 31, 30, 31, 30, 31, 31, 30, 31, 30, 31]

/-- Days before a date. -/
def daysBefore (year month day : ℕ) : ℕ :=
  let years := year - 1
  years * 365 + years / 4 - years / 100 + years / 400 + ((monthDays year).take (month - 1)).sum +
    (day - 1)

/-- `datetime.strptime(s, "%Y-%m-%dT%H:%M:%S.%fZ")`, in microseconds. -/
def time? (v : Value) : Option ℕ := do
  let s ← (v.text?.map String.toList).filter isTimeText
  let year := numberAt s 0 4
  let month := numberAt s 5 2
  let day := numberAt s 8 2
  let hour := numberAt s 11 2
  let minute := numberAt s 14 2
  let second := numberAt s 17 2
  if 1 ≤ year ∧ 1 ≤ month ∧ month ≤ 12 ∧ 1 ≤ day ∧ day ≤ (monthDays year).getD (month - 1) 0 ∧
      hour < 24 ∧ minute < 60 ∧ second < 60 then
    some (((daysBefore year month day * 24 + hour) * 60 + minute) * 60 + second) |>.map
      fun seconds => seconds * 1000000 + numberAt s 20 6
  else none

/-! ### Intents -/

def readBinding (v : Value) : Option WorkerRunBinding := do
  let fields ← object? v ["project_id", "writer_key", "task_id", "run_id", "attempt"]
  let projectId ← (get fields "project_id").text?
  let writerKey ← (get fields "writer_key").text?
  let taskId ← (get fields "task_id").text?
  let runId ← (get fields "run_id").text?
  let attempt ← nat? (get fields "attempt")
  some ⟨projectId, writerKey, taskId, runId, attempt⟩

def operationKinds : List WorkerOperationKind :=
  [.fileRead, .fileList, .filePatch, .processStart, .processPoll, .processTerminate]

/-- `_request`. -/
def readRequest (v : Value) : Option WorkerOperationRequest := do
  let fields ← object? v
    ["binding", "operation_id", "kind", "target", "max_output_bytes", "schema_version"]
  let binding ← readBinding (get fields "binding")
  let operationId ← (get fields "operation_id").text?
  let kindText ← (get fields "kind").text?
  let kind ← operationKinds.find? fun kind => kind.text = kindText
  let target ← (get fields "target").text?
  let maxOutputBytes ← nat? (get fields "max_output_bytes")
  let request : WorkerOperationRequest := ⟨binding, operationId, kind, target, maxOutputBytes⟩
  if (get fields "schema_version").int? = some 1 ∧ patchRequest request then some request else none

/-- `_replacement`. -/
def readReplacement (v : Value) : Option PatchReplacement := do
  let fields ← object? v ["schema_version", "baseline", "sha256", "size_bytes"]
  let baseline ← object? (get fields "baseline") ["sha256", "size_bytes"]
  let baseSha256 ← digest? (get baseline "sha256")
  let baseSize ← nat? (get baseline "size_bytes")
  let sha256 ← digest? (get fields "sha256")
  let size ← nat? (get fields "size_bytes")
  let replacement : PatchReplacement := ⟨⟨baseSha256, baseSize⟩, sha256, size⟩
  if (get fields "schema_version").int? = some 1 ∧ replacement.valid then some replacement else none

variable (m : Verifier)

/-- `validate_intent_record`. -/
def validateIntentRecord (v : Value) : Option IntentRecord := do
  let fields ← object? v
    ["schema_version", "state", "request", "replacement", "fingerprint", "created_at"]
  let request ← readRequest (get fields "request")
  let replacement ← readReplacement (get fields "replacement")
  let fingerprint ← digest? (get fields "fingerprint")
  let createdAt ← time? (get fields "created_at")
  let intent : IntentRecord := ⟨request, replacement, fingerprint, createdAt⟩
  if (get fields "schema_version").int? = some 1 ∧
      (get fields "state").text? = some "INTENT_RECORDED" ∧ intent.valid m.digests then
    some intent
  else none

/-! ### Records of an execution -/

def readNumbers (fields : Fields) : Option FileSignature := do
  let dev ← nat? (get fields "dev")
  let ino ← nat? (get fields "ino")
  let mode ← nat? (get fields "mode")
  let uid ← nat? (get fields "uid")
  let gid ← nat? (get fields "gid")
  let nlink ← nat? (get fields "nlink")
  let size ← nat? (get fields "size")
  let mtimeNs ← nat? (get fields "mtime_ns")
  let ctimeNs ← nat? (get fields "ctime_ns")
  let flags ← nat? (get fields "flags")
  some ⟨dev, ino, mode, uid, gid, nlink, size, mtimeNs, ctimeNs, flags⟩

def signatureFields : List String :=
  ["dev", "ino", "mode", "uid", "gid", "nlink", "size", "mtime_ns", "ctime_ns", "flags"]

/-- `stat.S_ISREG(mode)`. -/
def isRegularMode (mode : ℕ) : Except Fault Bool :=
  if m.modeLimit ≤ mode then .error (.overflowError "mode out of range") else .ok (isRegular mode)

/-- `_signature`. -/
def readSignature (v : Value) : Checked FileSignature := do
  let fields ← ofOption (object? v signatureFields) (.value "patch_execution_invalid_record")
  let s ← ofOption (readNumbers fields) (.value "patch_execution_invalid_signature")
  let regular ← raised (isRegularMode m s.mode)
  require (regular ∧ s.valid m.uid) (.value "patch_execution_invalid_signature")
  return s

def contentFields : List String := ["identity", "sha256", "size_bytes", "xattrs_digest"]

/-- `_content`. -/
def readContent (v : Value) : Checked Bridge.Content := do
  let fields ← ofOption (object? v contentFields) (.value "patch_execution_invalid_record")
  let identity ← readSignature m (get fields "identity")
  let sha256 ← ofOption (digest? (get fields "sha256")) (.value "patch_execution_invalid_record")
  let xattrsDigest ← ofOption (digest? (get fields "xattrs_digest"))
    (.value "patch_execution_invalid_record")
  require ((get fields "size_bytes").int? = some identity.size)
    (.value "patch_execution_invalid_signature")
  return ⟨identity, sha256, identity.size, xattrsDigest⟩

/-- `_pair`. -/
def readPair (v : Value) : Option (ℕ × ℕ) :=
  match v with
  | .arr [dev, ino] => do
    let dev ← nat? dev
    let ino ← nat? ino
    if ino ≠ 0 then some (dev, ino) else none
  | _ => none

def readPairs (fields : Fields) : Option Anchors := do
  let root ← readPair (get fields "root")
  let parent ← readPair (get fields "parent")
  match get fields "parents" with
  | .arr values => do
    let parents ← values.mapM readPair
    some ⟨root, parents, parent⟩
  | _ => none

def readAnchors (v : Value) : Checked Anchors := do
  let fields ← ofOption (object? v ["root", "parents", "parent"])
    (.value "patch_execution_invalid_record")
  let anchors ← ofOption (readPairs fields) (.value "patch_execution_invalid_anchor")
  require anchors.valid (.value "patch_execution_invalid_anchor")
  return anchors

def commonFields : List String :=
  ["schema_version", "phase", "request", "intent_fingerprint", "created_at"]

def phaseFields : Phase → List String
  | .dispatch => ["anchors", "original", "temp_name"]
  | .publication => ["dispatch_sha256", "staged"]
  | .result => ["dispatch_sha256", "publication_sha256", "disposition", "basis"]

def phases : List Phase := [.dispatch, .publication, .result]

/-- The part that all records share, with the phase of the record. -/
def recordHeader (v : Value) : Checked (Phase × Fields × RecordBase) := do
  let record ← ofOption (fields? v) (.value "patch_execution_invalid_record")
  let phase ← ofOption (phases.find? fun phase => (get record "phase").text? = some phase.text)
    (.value "patch_execution_invalid_phase")
  let fields ← ofOption (object? v (commonFields ++ phaseFields phase))
    (.value "patch_execution_invalid_record")
  require ((get fields "schema_version").int? = some 1) (.value "patch_execution_invalid_record")
  let request ← ofOption (readRequest (get fields "request")) (.value "journal_invalid_record")
  let fingerprint ← ofOption (digest? (get fields "intent_fingerprint"))
    (.value "patch_execution_invalid_record")
  let createdAt ← ofOption (time? (get fields "created_at"))
    (.value "patch_execution_invalid_record")
  return (phase, fields, ⟨request, fingerprint, createdAt⟩)

def readTempName (v : Value) : Option TempName := (v.text?.map String.toList).filter isTempName

def readDispatch (fields : Fields) (base : RecordBase) : Checked ExecutionRecord := do
  let anchors ← readAnchors (get fields "anchors")
  let original ← readContent m (get fields "original")
  let tempName ← ofOption (readTempName (get fields "temp_name"))
    (.value "patch_execution_invalid_temp")
  return .dispatch ⟨base, anchors, original, tempName⟩

def readPublication (fields : Fields) (base : RecordBase) : Checked ExecutionRecord := do
  let dispatchSha256 ← ofOption (digest? (get fields "dispatch_sha256"))
    (.value "patch_execution_invalid_record")
  let staged ← readContent m (get fields "staged")
  return .publication ⟨base, dispatchSha256, staged⟩

def dispositions : List Disposition := [.applied, .notApplied]

def basisKinds : List BasisKind :=
  [.apply, .reconcileApplied, .reconcileStaged, .reconcileNoPublication, .failedBeforePublication]

/-- What a result says besides what its target is. -/
structure ResultHeader where
  dispatchSha256 : Digest
  publicationSha256 : Option Digest
  disposition : Disposition
  kind : BasisKind
  target : Value

def resultHeader (fields : Fields) : Checked ResultHeader := do
  let dispatchSha256 ← ofOption (digest? (get fields "dispatch_sha256"))
    (.value "patch_execution_invalid_record")
  let publication := get fields "publication_sha256"
  require (publication.isNull ∨ (digest? publication).isSome)
    (.value "patch_execution_invalid_record")
  let disposition ← ofOption (dispositions.find? fun d =>
      (get fields "disposition").text? = some d.text) (.value "patch_execution_invalid_result")
  let basis ← ofOption (object? (get fields "basis") ["kind", "target", "temp_absent"])
    (.value "patch_execution_invalid_record")
  let kind ← ofOption (basisKinds.find? fun k => (get basis "kind").text? = some k.text)
    (.value "patch_execution_invalid_result")
  match get basis "temp_absent" with
  | .bool true =>
      return ⟨dispatchSha256, digest? publication, disposition, kind, get basis "target"⟩
  | _ => .error (.value "patch_execution_invalid_result")

def readResult (fields : Fields) (base : RecordBase) : Checked ExecutionRecord := do
  let header ← resultHeader fields
  let target ← readContent m header.target
  return .result ⟨base, header.dispatchSha256, header.publicationSha256, header.disposition,
    ⟨header.kind, target, true⟩⟩

def readPhase (phase : Phase) (fields : Fields) (base : RecordBase) : Checked ExecutionRecord :=
  match phase with
  | .dispatch => readDispatch m fields base
  | .publication => readPublication m fields base
  | .result => readResult m fields base

/-- `_record`. -/
def readRecord (v : Value) : Checked ExecutionRecord := do
  let (phase, fields, base) ← recordHeader v
  let record ← readPhase m phase fields base
  require (record.valid m.uid) (.value "patch_execution_record_too_large")
  return record

/-- One round of the loop over the records of an operation. -/
def linkRecord (intent : IntentRecord) (chain : Chain) (entry : Phase × Value) : Checked Chain := do
  let record ← readRecord m entry.2
  require (record.phase = entry.1 ∧ record.base.request = intent.request ∧
    record.base.intentFingerprint = intent.fingerprint)
    (.value "patch_execution_intent_mismatch")
  return chain.put record

/-- Which check of the chain of an intent's records fails first. -/
def chainError (intent : IntentRecord) (chain : Chain) (dispatch : DispatchRecord) : String :=
  let baseline := intent.replacement.baseline
  if dispatch.original.sha256 ≠ baseline.sha256 ∨ dispatch.original.sizeBytes ≠ baseline.sizeBytes
  then "patch_execution_original_mismatch"
  else if ¬ chain.publication.all (Chain.publicationMatches m.digests intent dispatch) then
    "patch_execution_publication_mismatch"
  else if chain.result.any fun result =>
      result.dispatchSha256 ≠ m.digests.record (.dispatch dispatch) ||
        result.publicationSha256 ≠ chain.publication.map fun p => m.digests.record (.publication p)
  then "patch_execution_predecessor_mismatch"
  else "patch_execution_result_mismatch"

/-- `validate_execution_records`. -/
def validateExecutionRecords (intent : IntentRecord) (records : List (Phase × Value)) :
    Checked Chain := do
  require (records.any fun entry => entry.1 = .dispatch) (.value "patch_execution_invalid_chain")
  require (intent.valid m.digests) (.value "journal_invalid_record")
  let chain ← records.foldlM (linkRecord m intent) {}
  let dispatch ← ofOption chain.dispatch (.value "patch_execution_invalid_chain")
  require (chain.valid m.digests m.uid intent) (.value (chainError m intent chain dispatch))
  return chain

end OrchKit.Archive
