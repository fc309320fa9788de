import OrchKit.Data.Canonical
import OrchKit.Ledger.Grants

/-! # Requests and evidence of the bridge

What a worker asks for, the intent that is journalled for a patch, and the records of
its execution: a dispatch, a publication and a result, each bound to the one before it
by its digest. Every record is checked field by field before it is stored and after it
is read, and the records of one operation are checked together against the intent.
-/

namespace OrchKit.Bridge

abbrev Bytes := List UInt8

abbrev Digest := List Char

abbrev TempName := List Char

def workerMaxOutputBytes : ℕ := 65536

def recordMaxBytes : ℕ := 8192

/-! ### Requests -/

/-- `_identifier`. -/
def identifier (limit : ℕ) (allowed : Char → Bool) (s : String) : Bool :=
  s.length ≤ limit && s ≠ "" && s.toList.all allowed

def isWord (c : Char) : Bool := c.isAlphanum || c ∈ ['.', '_', '-']

structure WorkerRunBinding where
  projectId : ProjectId
  writerKey : WriterKey
  taskId : TaskId
  runId : RunId
  attempt : ℕ
  deriving DecidableEq

def WorkerRunBinding.valid (binding : WorkerRunBinding) : Bool :=
  identifier 160 (fun c => isWord c && !c.isUpper) binding.projectId &&
    identifier 200 (fun c => isWord c || c = ':') binding.writerKey &&
    identifier 200 isWord binding.taskId && identifier 200 isWord binding.runId &&
    1 ≤ binding.attempt && binding.attempt ≤ 1000000

inductive WorkerOperationKind
  | fileRead
  | fileList
  | filePatch
  | processStart
  | processPoll
  | processTerminate
  deriving DecidableEq

def WorkerOperationKind.text : WorkerOperationKind → String
  | fileRead => "file.read"
  | fileList => "file.list"
  | filePatch => "file.patch"
  | processStart => "process.start"
  | processPoll => "process.poll"
  | processTerminate => "process.terminate"

def fileOperationKinds : List WorkerOperationKind := [.fileRead, .fileList, .filePatch]

/-- `_file_target`. -/
def fileTarget (target : String) : Bool :=
  let parts := target.toList.splitOn '/'
  target ≠ "" && Canonical.utf8Size target ≤ 1024 && target.toList.head? ≠ some '/' &&
    '\\' ∉ target.toList && ':' ∉ parts.headD [] &&
    target.toList.all (fun c => 32 ≤ c.toNat && c.toNat ≠ 127) &&
    parts.all fun part => part ∉ [[], ['.'], ['.', '.']]

structure WorkerOperationRequest where
  binding : WorkerRunBinding
  operationId : String
  kind : WorkerOperationKind
  target : String
  maxOutputBytes : ℕ := workerMaxOutputBytes
  deriving DecidableEq

def WorkerOperationRequest.valid (request : WorkerOperationRequest) : Bool :=
  request.binding.valid && identifier 200 isWord request.operationId &&
    (if request.kind ∈ fileOperationKinds then fileTarget request.target
      else identifier 200 isWord request.target) &&
    1 ≤ request.maxOutputBytes && request.maxOutputBytes ≤ workerMaxOutputBytes

/-! ### Files -/

/-- `file_signature`. -/
structure FileSignature where
  dev : ℕ
  ino : ℕ
  mode : ℕ
  uid : ℕ
  gid : ℕ
  nlink : ℕ
  size : ℕ
  mtimeNs : ℕ
  ctimeNs : ℕ
  flags : ℕ
  deriving DecidableEq

/-- `stable_identity`: all but the times. -/
def FileSignature.stable (s : FileSignature) : FileSignature :=
  { s with mtimeNs := 0, ctimeNs := 0 }

/-- `stat.S_ISREG`. -/
def isRegular (mode : ℕ) : Bool := mode &&& 0o170000 = 0o100000

/-- `_signature`. -/
def FileSignature.valid (uid : ℕ) (s : FileSignature) : Bool :=
  isRegular s.mode && s.mode &&& 0o7000 = 0 && s.uid = uid && s.ino ≠ 0 && s.nlink = 1 &&
    s.flags = 0 && s.size ≤ workerMaxOutputBytes

def isDigest (s : Digest) : Bool := s.length = 64 && s.all isHex

/-- What `_capture` observes of a file, its bytes apart. -/
structure Content where
  identity : FileSignature
  sha256 : Digest
  sizeBytes : ℕ
  xattrsDigest : Digest
  deriving DecidableEq

def Content.valid (uid : ℕ) (c : Content) : Bool :=
  c.identity.valid uid && isDigest c.sha256 && isDigest c.xattrsDigest &&
    c.sizeBytes = c.identity.size

/-- `_same_material`. -/
def sameMaterial (actual expected : Content) : Bool :=
  actual.identity = expected.identity && actual.sha256 = expected.sha256 &&
    actual.sizeBytes = expected.sizeBytes && actual.xattrsDigest = expected.xattrsDigest

/-- `_same_material` with `stable`. -/
def sameStableMaterial (actual expected : Content) : Bool :=
  actual.identity.stable = expected.identity.stable && actual.sha256 = expected.sha256 &&
    actual.sizeBytes = expected.sizeBytes && actual.xattrsDigest = expected.xattrsDigest

/-- Device and inode of the root, of every directory from it to the parent, and of the parent. -/
structure Anchors where
  root : ℕ × ℕ
  parents : List (ℕ × ℕ)
  parent : ℕ × ℕ
  deriving DecidableEq

def Anchors.valid (anchors : Anchors) : Bool :=
  anchors.root.2 ≠ 0 && anchors.parent.2 ≠ 0 && anchors.parents.all (fun pair => pair.2 ≠ 0) &&
    anchors.parents.length ≤ 512 && anchors.parents.head? = some anchors.root &&
    anchors.parents.getLast? = some anchors.parent

/-! ### Records -/

structure FilePatchBaseline where
  sha256 : Digest
  sizeBytes : ℕ
  deriving DecidableEq

/-- The metadata of a replacement. -/
structure PatchReplacement where
  baseline : FilePatchBaseline
  sha256 : Digest
  sizeBytes : ℕ
  deriving DecidableEq

/-- `_replacement`. -/
def PatchReplacement.valid (replacement : PatchReplacement) : Bool :=
  isDigest replacement.baseline.sha256 && replacement.baseline.sizeBytes ≤ workerMaxOutputBytes &&
    isDigest replacement.sha256 && replacement.sizeBytes ≤ workerMaxOutputBytes &&
    ¬ (replacement.sha256 = replacement.baseline.sha256 ∧
      replacement.sizeBytes = replacement.baseline.sizeBytes)

/-- An intent; `createdAt` is in microseconds, its text always takes 27 characters. -/
structure IntentRecord where
  request : WorkerOperationRequest
  replacement : PatchReplacement
  fingerprint : Digest
  createdAt : ℕ
  deriving DecidableEq

/-- What all records of an execution have. -/
structure RecordBase where
  request : WorkerOperationRequest
  intentFingerprint : Digest
  createdAt : ℕ
  deriving DecidableEq

structure DispatchRecord extends RecordBase where
  anchors : Anchors
  original : Content
  tempName : TempName
  deriving DecidableEq

structure PublicationRecord extends RecordBase where
  dispatchSha256 : Digest
  staged : Content
  deriving DecidableEq

inductive Disposition
  | applied
  | notApplied
  deriving DecidableEq

def Disposition.text : Disposition → String
  | applied => "APPLIED"
  | notApplied => "NOT_APPLIED"

inductive BasisKind
  | apply
  | reconcileApplied
  | reconcileStaged
  | reconcileNoPublication
  | failedBeforePublication
  deriving DecidableEq

def BasisKind.text : BasisKind → String
  | apply => "APPLY"
  | reconcileApplied => "RECONCILE_APPLIED"
  | reconcileStaged => "RECONCILE_STAGED"
  | reconcileNoPublication => "RECONCILE_NO_PUBLICATION"
  | failedBeforePublication => "FAILED_BEFORE_PUBLICATION"

structure Basis where
  kind : BasisKind
  target : Content
  tempAbsent : Bool
  deriving DecidableEq

structure ResultRecord extends RecordBase where
  dispatchSha256 : Digest
  publicationSha256 : Option Digest
  disposition : Disposition
  basis : Basis
  deriving DecidableEq

inductive ExecutionRecord
  | dispatch (record : DispatchRecord)
  | publication (record : PublicationRecord)
  | result (record : ResultRecord)
  deriving DecidableEq

inductive Phase
  | dispatch
  | publication
  | result
  deriving DecidableEq

def Phase.text : Phase → String
  | dispatch => "DISPATCH"
  | publication => "PUBLICATION"
  | result => "RESULT"

namespace ExecutionRecord

def phase : ExecutionRecord → Phase
  | dispatch _ => .dispatch
  | publication _ => .publication
  | result _ => .result

def base : ExecutionRecord → RecordBase
  | dispatch record => record.toRecordBase
  | publication record => record.toRecordBase
  | result record => record.toRecordBase

end ExecutionRecord

/-! ### Sizes in JSON -/

section Size

open Canonical

def WorkerRunBinding.bytes (binding : WorkerRunBinding) : ℕ :=
  obj [("attempt", nat binding.attempt), ("project_id", str binding.projectId),
    ("run_id", str binding.runId), ("task_id", str binding.taskId),
    ("writer_key", str binding.writerKey)]

def WorkerOperationRequest.bytes (request : WorkerOperationRequest) : ℕ :=
  obj [("binding", request.binding.bytes), ("kind", word request.kind.text),
    ("max_output_bytes", nat request.maxOutputBytes), ("operation_id", str request.operationId),
    ("schema_version", nat 1), ("target", str request.target)]

def FileSignature.bytes (s : FileSignature) : ℕ :=
  obj [("ctime_ns", nat s.ctimeNs), ("dev", nat s.dev), ("flags", nat s.flags), ("gid", nat s.gid),
    ("ino", nat s.ino), ("mode", nat s.mode), ("mtime_ns", nat s.mtimeNs), ("nlink", nat s.nlink),
    ("size", nat s.size), ("uid", nat s.uid)]

def Content.bytes (c : Content) : ℕ :=
  obj [("identity", c.identity.bytes), ("sha256", chars c.sha256), ("size_bytes", nat c.sizeBytes),
    ("xattrs_digest", chars c.xattrsDigest)]

def pairBytes (pair : ℕ × ℕ) : ℕ := arr [nat pair.1, nat pair.2]

def Anchors.bytes (anchors : Anchors) : ℕ :=
  obj [("parent", pairBytes anchors.parent), ("parents", arr (anchors.parents.map pairBytes)),
    ("root", pairBytes anchors.root)]

def timeBytes : ℕ := 29

/-- The fields that all records have, of a record in this phase. -/
def RecordBase.fields (base : RecordBase) (phase : Phase) : List (String × ℕ) :=
  [("created_at", timeBytes), ("intent_fingerprint", chars base.intentFingerprint),
    ("phase", word phase.text), ("request", base.request.bytes), ("schema_version", nat 1)]

def Basis.bytes (basis : Basis) : ℕ :=
  obj [("kind", word basis.kind.text), ("target", basis.target.bytes),
    ("temp_absent", Canonical.bool basis.tempAbsent)]

def ExecutionRecord.bytes : ExecutionRecord → ℕ
  | dispatch record => obj <| record.fields .dispatch ++
      [("anchors", record.anchors.bytes), ("original", record.original.bytes),
        ("temp_name", chars record.tempName)]
  | publication record => obj <| record.fields .publication ++
      [("dispatch_sha256", chars record.dispatchSha256), ("staged", record.staged.bytes)]
  | result record => obj <| record.fields .result ++
      [("basis", record.basis.bytes), ("dispatch_sha256", chars record.dispatchSha256),
        ("disposition", word record.disposition.text),
        ("publication_sha256", record.publicationSha256.elim null chars)]

def PatchReplacement.bytes (replacement : PatchReplacement) : ℕ :=
  obj [("baseline", obj [("sha256", chars replacement.baseline.sha256),
      ("size_bytes", nat replacement.baseline.sizeBytes)]), ("schema_version", nat 1),
    ("sha256", chars replacement.sha256), ("size_bytes", nat replacement.sizeBytes)]

def IntentRecord.bytes (intent : IntentRecord) : ℕ :=
  obj [("created_at", timeBytes), ("fingerprint", chars intent.fingerprint),
    ("replacement", intent.replacement.bytes), ("request", intent.request.bytes),
    ("schema_version", nat 1), ("state", word "INTENT_RECORDED")]

end Size

/-! ### Checks -/

/-- The digests the bridge takes of what it stores; each is 64 hexadecimal digits. -/
structure Digests where
  id : String → Digest
  request : WorkerOperationRequest → PatchReplacement → Digest
  record : ExecutionRecord → Digest
  content : Bytes → Digest
  xattrs : List (Bytes × Bytes) → Digest
  isDigest_id : ∀ s, isDigest (id s)
  isDigest_request : ∀ r p, isDigest (request r p)
  isDigest_record : ∀ r, isDigest (record r)
  isDigest_content : ∀ b, isDigest (content b)
  isDigest_xattrs : ∀ x, isDigest (xattrs x)

/-- `_request`. -/
def patchRequest (request : WorkerOperationRequest) : Bool :=
  request.valid && request.kind = .filePatch

/-- `validate_intent_record`. -/
def IntentRecord.valid (digests : Digests) (intent : IntentRecord) : Bool :=
  patchRequest intent.request && intent.replacement.valid && isDigest intent.fingerprint &&
    intent.fingerprint = digests.request intent.request intent.replacement &&
    intent.bytes ≤ recordMaxBytes

def tempPrefix : TempName := ['.', 'o', 'r', 'c', 'h', '-', 'p', 'a', 't', 'c', 'h', '-']

def tempSuffix : TempName := ['.', 't', 'm', 'p']

def isTempName (name : TempName) : Bool :=
  name.length = 48 && tempPrefix.isPrefixOf name && tempSuffix.isSuffixOf name &&
    ((name.drop 12).take 32).all isHex

/-- `_record`, on a record whose fields are of the right types. -/
def ExecutionRecord.valid (uid : ℕ) (r : ExecutionRecord) : Bool :=
  patchRequest r.base.request && isDigest r.base.intentFingerprint &&
    (match r with
    | dispatch record =>
      record.anchors.valid && record.original.valid uid && isTempName record.tempName
    | publication record => isDigest record.dispatchSha256 && record.staged.valid uid
    | result record =>
      isDigest record.dispatchSha256 && record.publicationSha256.all isDigest &&
        record.basis.tempAbsent && record.basis.target.valid uid) &&
    r.bytes ≤ recordMaxBytes

/-- The records of one operation. -/
structure Chain where
  dispatch : Option DispatchRecord := none
  publication : Option PublicationRecord := none
  result : Option ResultRecord := none
  deriving DecidableEq

namespace Chain

def record (c : Chain) : Phase → Option ExecutionRecord
  | .dispatch => c.dispatch.map .dispatch
  | .publication => c.publication.map .publication
  | .result => c.result.map .result

/-- The records with one more, in the place of the one of its phase. -/
def put (c : Chain) : ExecutionRecord → Chain
  | .dispatch record => { c with dispatch := record }
  | .publication record => { c with publication := record }
  | .result record => { c with result := record }

def linked (uid : ℕ) (intent : IntentRecord) (r : ExecutionRecord) : Bool :=
  r.valid uid && r.base.request = intent.request && r.base.intentFingerprint = intent.fingerprint

def publicationMatches (digests : Digests) (intent : IntentRecord) (dispatch : DispatchRecord)
    (publication : PublicationRecord) : Bool :=
  let original := dispatch.original
  let staged := publication.staged
  publication.dispatchSha256 = digests.record (.dispatch dispatch) &&
    staged.sha256 = intent.replacement.sha256 && staged.sizeBytes = intent.replacement.sizeBytes &&
    staged.identity.dev = original.identity.dev && staged.identity.mode = original.identity.mode &&
    staged.identity.uid = original.identity.uid && staged.identity.gid = original.identity.gid &&
    staged.identity.nlink = original.identity.nlink &&
    staged.identity.flags = original.identity.flags &&
    staged.identity.ino ≠ original.identity.ino && staged.xattrsDigest = original.xattrsDigest

def resultMatches (digests : Digests) (dispatch : DispatchRecord)
    (publication : Option PublicationRecord) (result : ResultRecord) : Bool :=
  result.dispatchSha256 = digests.record (.dispatch dispatch) &&
    result.publicationSha256 = publication.map (fun p => digests.record (.publication p)) &&
    match result.disposition, publication with
    | .applied, none => false
    | .applied, some publication =>
      result.basis.kind ∈ [.apply, .reconcileApplied] &&
        sameStableMaterial result.basis.target publication.staged
    | .notApplied, none =>
      result.basis.target = dispatch.original &&
        result.basis.kind ∈ [.apply, .reconcileNoPublication, .failedBeforePublication]
    | .notApplied, some _ =>
      result.basis.target = dispatch.original && result.basis.kind ∈ [.apply, .reconcileStaged]

/-- `validate_execution_records`. -/
def valid (digests : Digests) (uid : ℕ) (intent : IntentRecord) (c : Chain) : Bool :=
  match c.dispatch with
  | none => false
  | some dispatch =>
    intent.valid digests && linked uid intent (.dispatch dispatch) &&
      c.publication.all (fun p => linked uid intent (.publication p)) &&
      c.result.all (fun r => linked uid intent (.result r)) &&
      dispatch.original.sha256 = intent.replacement.baseline.sha256 &&
      dispatch.original.sizeBytes = intent.replacement.baseline.sizeBytes &&
      c.publication.all (publicationMatches digests intent dispatch) &&
      c.result.all (resultMatches digests dispatch c.publication)

end Chain

end OrchKit.Bridge
