import OrchKit.Archive.Records
import OrchKit.Workspace.Scope

/-! # Verification of a backup

An archive is verified in stages: its table of members, its manifest, the evidence the manifest has
of its files, the journal of operations and the records of patch executions in it, and its copy of
the ledger's database. A stage that finds something wrong ends the verification with a verdict that
blocks the archive. The layer below is taken as it is: how a file is a table of members, how bytes
are read as JSON, and what SQLite says about a database.
-/

namespace OrchKit.Archive

open Except Json Bridge

/-! ### Archives -/

/-- A member of an archive; its bytes can be read unless they fail their checksum. -/
structure Member where
  name : String
  fileSize : ℕ
  externalAttr : ℕ
  bytes : Option Bytes

namespace Member

def fileType (x : Member) : ℕ := (x.externalAttr >>> 16) &&& 0o170000

def isLink (x : Member) : Bool := x.fileType = 0o120000

def isDir (x : Member) : Bool := x.name.toList.getLast? = some '/'

/-- A regular file that is no larger than a record can be. -/
def isRecord (x : Member) : Bool :=
  !x.isDir && x.fileType ∈ [0, 0o100000] && x.fileSize ≤ recordMaxBytes

end Member

structure ForeignKeyViolation where
  table : String
  rowid : Option ℤ
  parent : String
  foreignKey : ℤ

/-- What SQLite says about a database. -/
structure DatabaseReport where
  quickCheck : List String
  foreignKeyViolations : List ForeignKeyViolation
  schemaVersion : ℤ

/-- What a verification reads with: the ZIP format, JSON, JSON without repeated keys or constants,
and SQLite. What is not in their form has no reading. -/
structure Reader extends Verifier where
  members : Bytes → Option (List Member)
  loads : Bytes → Parsed
  loadsUnique : Bytes → Option Value
  database : Bytes → Option DatabaseReport

/-! ### Verdicts -/

inductive Status
  | verified
  | blocked
  deriving DecidableEq

inductive Compatibility
  | current
  | upgradeRequired
  | futureUnsupported
  deriving DecidableEq

/-- What is said about a database that could be opened. -/
structure DatabaseVerdict where
  manifest : Fields
  report : DatabaseReport
  currentSchemaVersion : ℤ
  compatibility : Compatibility

/-- The result of a verification. -/
structure Verdict where
  status : Status := .blocked
  path : String := ""
  errors : List String := []
  warnings : List String := []
  unsafeMembers : List String := []
  forbiddenMembers : List String := []
  nonrestorableMembers : List String := []
  memberCount : Option ℕ := none
  uncompressedBytes : Option ℕ := none
  missingMembers : List String := []
  fileEvidenceMismatch : Option String := none
  databaseSha256 : Option Digest := none
  manifestDatabaseSha256 : Option Digest := none
  database : Option DatabaseVerdict := none
  crcMember : Option String := none
  archiveSha256 : Option Digest := none
  archiveBytes : Option ℕ := none

/-- How a verification ends before its last stage. -/
inductive Stop
  | blocked (verdict : Verdict)
  | raised (e : Exn)

abbrev Stage := Except Stop

section Stages

variable {α : Type}

/-- `base["errors"].append(error); return base`. -/
def refused (base : Verdict) (error : String) : Stop :=
  .blocked { base with errors := base.errors ++ [error] }

def stopped : Except Json.Fault α → Stage α
  | .ok a => .ok a
  | .error fault => .error (.raised (ofFault fault))

/-- `except ValueError`, with a verdict. -/
def blockValue (base : Verdict) (x : Checked α) (error : String) : Stage α :=
  match x with
  | .ok a => .ok a
  | .error (.value _) => .error (refused base error)
  | .error e => .error (.raised e)

end Stages

/-! ### Names -/

def journalDirectory : List Char := "files/.runtime/operation_journal/".toList

def executionDirectory : List Char := "files/.runtime/patch_execution/".toList

/-- `name.startswith(directory)`. -/
def under (directory : List Char) (name : String) : Bool := directory.isPrefixOf name.toList

def partsBelow (directory : List Char) (name : String) : List (List Char) :=
  (name.toList.drop directory.length).splitOn '/'

/-- The digests in a name that `_journal_archive_member` accepts, once it is in the directory. -/
def journalMember? (name : String) : Option (Digest × Digest) :=
  match partsBelow journalDirectory name with
  | [run, file] =>
    if isDigest run && isDigest (file.take 64) && file.drop 64 = ".json".toList then
      some (run, file.take 64)
    else none
  | _ => none

def phaseFile : Phase → String
  | .dispatch => "dispatch.json"
  | .publication => "publication.json"
  | .result => "result.json"

/-- The digests and the phase in a name that `_execution_archive_member` accepts, once it is in the
directory. -/
def executionMember? (name : String) : Option ((Digest × Digest) × Phase) :=
  match partsBelow executionDirectory name with
  | [run, operation, file] =>
    if isDigest run && isDigest operation then
      (phases.find? fun phase => (phaseFile phase).toList = file).map fun phase =>
        ((run, operation), phase)
    else none
  | _ => none

/-- `_restorable_backup_member`. -/
def restorableBackupMember (name : String) : Bool :=
  if name ∈ ["state/orch.sqlite3", "state/manifest.json", "files/config.json",
      "files/rdc-bootstrap.json", "files/dispatcher-prompt.txt", "files/restore-receipt.json",
      "files/replacement-receipt.json"] then true
  else if under journalDirectory name then (journalMember? name).isSome
  else if under executionDirectory name then (executionMember? name).isSome
  else ["files/projects/", "files/plans/", "files/.runtime/logs/",
    "files/.runtime/worker_receipts/", "files/.runtime/review_exports/"].any fun directory =>
      under directory.toList name

/-- The name is not the normal form of a relative path without `..`. -/
def isUnsafeName (name : String) : Bool :=
  let chars := name.toList
  name = "" || '\x00' ∈ chars || '\\' ∈ chars || chars.head? = some '/' ||
    ['.', '.'] ∈ pathComponents chars || chars ≠ asPosix chars

def isForbiddenName (name : String) : Bool :=
  under "files/.runtime/claims/".toList name || name = "files/.runtime/claims"

/-! ### The table of members -/

def names (members : List Member) : List String := members.map Member.name

/-- `archive.open(name)`. -/
def member? (members : List Member) (name : String) : Option Member :=
  members.find? fun x => x.name = name

def named (members : List Member) : List Member := members.filter fun x => !isUnsafeName x.name

def required : List String := ["state/manifest.json", "state/orch.sqlite3"]

/-- The verdict on the table of members. -/
def tableVerdict (limit : ℤ) (path : String) (members : List Member) : Verdict :=
  let unsafeMembers := names (members.filter fun x => isUnsafeName x.name || x.isLink)
  let forbidden := names ((named members).filter fun x => isForbiddenName x.name)
  let nonrestorable := names ((named members).filter fun x => !restorableBackupMember x.name)
  let total := (members.map Member.fileSize).sum
  let missing := required.filter (· ∉ names members)
  let checks : List (Bool × String) := [(¬ (names members).Nodup, "duplicate_backup_member"),
    (unsafeMembers ≠ [], "unsafe_backup_member"), (forbidden ≠ [], "forbidden_secret_member"),
    (nonrestorable ≠ [], "backup_member_not_restorable"),
    (limit < total, "backup_uncompressed_limit_exceeded"),
    (missing ≠ [], "backup_required_member_missing")]
  { path := path
    errors := (checks.filter Prod.fst).map Prod.snd
    unsafeMembers := sortedSet unsafeMembers
    forbiddenMembers := sortedSet forbidden
    nonrestorableMembers := sortedSet nonrestorable
    memberCount := members.length
    uncompressedBytes := total
    missingMembers := missing }

/-! ### The manifest -/

/-- The fields of the manifest. -/
def readManifest (m : Reader) (base : Verdict) (members : List Member) : Stage Fields := do
  let x ← ofOption (member? members "state/manifest.json") (refused base "backup_manifest_invalid")
  -- A checksum that is wrong is reported by the handler around all stages.
  let bytes ← ofOption x.bytes (refused base "backup_zip_invalid")
  match m.loads bytes with
  | .value (.obj manifest) => return manifest
  | .value _ | .malformed => .error (refused base "backup_manifest_invalid")
  | .fault fault => .error (.raised (ofFault fault))

def requiredExclusions : List String := ["claims", "capability_files", "provider_credentials"]

/-- `required_exclusions.issubset(set(excluded))`. -/
def excludes (excluded : List Value) : Except Json.Fault Bool :=
  if excluded.all Value.hashable then
    .ok (requiredExclusions.all fun name => (text name).key ∈ excluded.map Value.key)
  else .error unhashable

def checkExclusions (base : Verdict) (manifest : Fields) : Stage Unit :=
  match get manifest "excluded_secret_classes" with
  | .arr excluded => do
    let contained ← stopped (excludes excluded)
    require contained (refused base "backup_secret_exclusion_contract_missing")
  | _ => .error (refused base "backup_secret_exclusion_contract_missing")

/-! ### Evidence of files -/

/-- The digest and the size that the evidence has of a file. -/
def readEvidence (record : Value) : Option (Digest × ℕ) := do
  let fields ← object? record ["sha256", "bytes"]
  let sha256 ← digest? (get fields "sha256")
  let bytes ← nat? (get fields "bytes")
  some (sha256, bytes)

def mismatch (base : Verdict) (name : String) : Stop :=
  refused { base with fileEvidenceMismatch := name } "backup_file_evidence_mismatch"

/-- One round of the loop over the files; `total` is how many bytes were read before. -/
def checkFile (m : Reader) (limit : ℤ) (base : Verdict) (members : List Member) (evidence : Fields)
    (total : ℕ) (name : String) : Stage ℕ := do
  let (sha256, size) ← ofOption (readEvidence (get evidence name))
    (refused base "backup_file_evidence_invalid")
  let x ← ofOption (member? members name) (refused base "backup_file_evidence_members_mismatch")
  require (size = x.fileSize) (mismatch base name)
  let bytes ← ofOption x.bytes (refused base "backup_file_evidence_read_failed")
  require (total + bytes.length ≤ limit) (refused base "backup_file_evidence_limit_exceeded")
  require (bytes.length = size ∧ m.digests.content bytes = sha256) (mismatch base name)
  return total + bytes.length

def checkEvidence (m : Reader) (limit : ℤ) (base : Verdict) (members : List Member)
    (manifest : Fields) : Stage Verdict :=
  match get manifest "file_evidence" with
  | .null => do
    require ((names members).all fun name => !under executionDirectory name)
      (refused base "backup_patch_execution_evidence_missing")
    require ((names members).all fun name => !under journalDirectory name)
      (refused base "backup_operation_journal_evidence_missing")
    return { base with warnings := base.warnings ++ ["backup_file_evidence_missing"] }
  | .obj evidence => do
    let files := (names members).filter fun name => under "files/".toList name
    require (keysAre evidence files) (refused base "backup_file_evidence_members_mismatch")
    let _ ← (sortedSet files).foldlM (checkFile m limit base members evidence) 0
    return base
  | _ => .error (refused base "backup_file_evidence_invalid")

/-! ### Journals -/

/-- The JSON in a member of a journal. Whatever reading it raises is a `ValueError` or is turned
into one. -/
def readMember (m : Reader) (journal : String) (x : Member) : Checked Value := do
  let bytes ← ofOption x.bytes (.value ("invalid_" ++ journal ++ "_record"))
  let raw := bytes.take (recordMaxBytes + 1)
  require (raw.length ≤ recordMaxBytes ∧ raw.length = x.fileSize)
    (.value ("invalid_" ++ journal ++ "_size"))
  ofOption (m.loadsUnique raw) (.value ("invalid_" ++ journal ++ "_record"))

def journalMaxRecords : ℕ := 1024

def journalMaxRecordsPerRun : ℕ := 64

/-- The intents read so far, under the digests in the names of their members. -/
abbrev Intents := List ((Digest × Digest) × IntentRecord)

/-- The request has the identifiers that the digests are of. -/
def identifies (m : Reader) (key : Digest × Digest) (request : WorkerOperationRequest) : Bool :=
  m.digests.id request.binding.runId = key.1 && m.digests.id request.operationId = key.2

/-- One round of the loop over the members. -/
def addIntent (m : Reader) (intents : Intents) (x : Member) : Checked Intents :=
  if under journalDirectory x.name then do
    let key ← ofOption (journalMember? x.name) (.value "invalid_journal_member")
    require x.isRecord (.value "invalid_journal_member")
    require (intents.length < journalMaxRecords ∧
      intents.countP (fun e => e.1.1 = key.1) < journalMaxRecordsPerRun)
      (.value "journal_inventory_limit")
    let v ← readMember m "journal" x
    let intent ← ofOption (validateIntentRecord m.toVerifier v) (.value "journal_invalid_record")
    require (identifies m key intent.request) (.value "journal_identity_mismatch")
    return intents ++ [(key, intent)]
  else return intents

/-- `_verify_archived_operation_journal`. -/
def verifyArchivedOperationJournal (m : Reader) (members : List Member) : Checked Intents :=
  members.foldlM (addIntent m) []

def executionMaxOperations : ℕ := 1024

def executionMaxOperationsPerRun : ℕ := 64

/-- The records of executions read so far, by operation. -/
abbrev Operations := List ((Digest × Digest) × List (Phase × Value))

/-- `operations.setdefault(key, {})`. -/
def setDefault (operations : Operations) (key : Digest × Digest) : Operations :=
  if operations.any fun e => e.1 = key then operations else operations ++ [(key, [])]

/-- `operations[key][phase] = v`. -/
def addPhase (operations : Operations) (key : Digest × Digest) (phase : Phase) (v : Value) :
    Operations :=
  operations.map fun e => if e.1 = key then (e.1, e.2 ++ [(phase, v)]) else e

/-- One round of the loop over the members. -/
def addRecord (m : Reader) (operations : Operations) (x : Member) : Checked Operations :=
  if under executionDirectory x.name then do
    let (key, phase) ← ofOption (executionMember? x.name) (.value "invalid_execution_member")
    require x.isRecord (.value "invalid_execution_member")
    let operations := setDefault operations key
    require (operations.all fun e => e.1 ≠ key || e.2.all fun r => r.1 ≠ phase)
      (.value "duplicate_execution_phase")
    require (operations.length ≤ executionMaxOperations) (.value "execution_inventory_limit")
    let v ← readMember m "execution" x
    return addPhase operations key phase v
  else return operations

/-- The intent of an operation, once the operation is one more of its run. -/
def operationIntent (intents : Intents) (runs : List Digest) (key : Digest × Digest) :
    Checked IntentRecord := do
  require (runs.count key.1 < executionMaxOperationsPerRun) (.value "execution_inventory_limit")
  ofOption (intents.lookup key) (.value "execution_intent_missing")

/-- One round of the loop over the operations; `runs` are the runs of those before. -/
def checkOperation (m : Reader) (intents : Intents) (runs : List Digest)
    (operation : (Digest × Digest) × List (Phase × Value)) : Checked (List Digest) := do
  let intent ← operationIntent intents runs operation.1
  let chain ← validateExecutionRecords m.toVerifier intent operation.2
  require (chain.dispatch.all fun dispatch => identifies m operation.1 dispatch.request)
    (.value "execution_identity_mismatch")
  return runs ++ [operation.1.1]

/-- `_verify_archived_patch_execution`. -/
def verifyArchivedPatchExecution (m : Reader) (intents : Intents) (members : List Member) :
    Checked Unit := do
  let operations ← members.foldlM (addRecord m) []
  let _ ← operations.foldlM (checkOperation m intents) []
  return

/-! ### The database -/

def stateSchemaVersion : ℤ := 4

def compatibility (schemaVersion : ℤ) : Compatibility :=
  if stateSchemaVersion < schemaVersion then .futureUnsupported
  else if schemaVersion < stateSchemaVersion then .upgradeRequired
  else .current

/-- What SQLite says about the copy of the database, which has this digest. -/
def readDatabase (m : Reader) (limit : ℤ) (base : Verdict) (members : List Member)
    (digest : Digest) : Stage DatabaseReport := do
  let x ← ofOption (member? members "state/orch.sqlite3")
    (refused base "backup_database_read_failed")
  let bytes ← ofOption x.bytes (refused base "backup_database_read_failed")
  require (bytes.length ≤ limit) (refused base "backup_database_limit_exceeded")
  let actualDigest := m.digests.content bytes
  require (actualDigest = digest)
    (refused { base with databaseSha256 := actualDigest, manifestDatabaseSha256 := digest }
      "backup_database_hash_mismatch")
  ofOption (m.database bytes) (refused base "backup_database_invalid")

def schemaErrors (manifest : Fields) (schemaVersion : ℤ) : List String :=
  match (get manifest "schema_version").int? with
  | none => ["backup_manifest_schema_invalid"]
  | some i => if i ≠ schemaVersion then ["backup_schema_binding_mismatch"] else []

/-- The verdict once the database could be opened. -/
def databaseVerdict (base : Verdict) (manifest : Fields) (digest : Digest)
    (report : DatabaseReport) : Verdict :=
  let checks : List (Bool × String) := [
    (report.quickCheck ≠ ["ok"], "backup_database_quick_check_failed"),
    (!report.foreignKeyViolations.isEmpty, "backup_database_foreign_key_violation"),
    (stateSchemaVersion < report.schemaVersion, "backup_future_schema_unsupported")]
  { base with
    errors := base.errors ++ schemaErrors manifest report.schemaVersion ++
      (checks.filter Prod.fst).map Prod.snd
    databaseSha256 := digest
    database := some ⟨manifest, report, stateSchemaVersion, compatibility report.schemaVersion⟩ }

/-! ### Verification -/

/-- `archive.testzip()`: the first member with a wrong checksum. -/
def testzip (members : List Member) : Option String :=
  (members.find? fun x => x.bytes.isNone).map Member.name

def unlessErrors (base : Verdict) : Stage Unit :=
  require (base.errors = []) (.blocked base)

/-- The stages before the journals: the verdict so far, the manifest and the digest it has of the
database. -/
def verifyManifest (m : Reader) (limit : ℤ) (base : Verdict) (members : List Member) :
    Stage (Verdict × Fields × Digest) := do
  let manifest ← readManifest m base members
  let digest ← ofOption (digest? (get manifest "database_sha256"))
    (refused base "backup_manifest_database_hash_invalid")
  checkExclusions base manifest
  let base ← checkEvidence m limit base members manifest
  return (base, manifest, digest)

def verifyJournals (m : Reader) (base : Verdict) (members : List Member) : Stage Unit := do
  let intents ← blockValue base (verifyArchivedOperationJournal m members)
    "backup_operation_journal_invalid"
  blockValue base (verifyArchivedPatchExecution m intents members) "backup_patch_execution_invalid"

def verifyDatabase (m : Reader) (limit : ℤ) (base : Verdict) (members : List Member)
    (manifest : Fields) (digest : Digest) : Stage Verdict := do
  let report ← readDatabase m limit base members digest
  let verdict := databaseVerdict base manifest digest report
  unlessErrors verdict
  match testzip members with
  | some name => .error (refused { verdict with crcMember := name } "backup_crc_failure")
  | none => return { verdict with status := .verified }

/-- The stages of a table of members. -/
def verifyMembers (m : Reader) (limit : ℤ) (base : Verdict) (members : List Member) :
    Stage Verdict := do
  unlessErrors base
  let (base, manifest, digest) ← verifyManifest m limit base members
  verifyJournals m base members
  verifyDatabase m limit base members manifest digest

/-- What is at a path. -/
structure BackupFile where
  path : String
  regular : Bool
  bytes : Bytes

/-- `_verify_frozen_backup_archive`. -/
def verifyFrozenBackupArchive (m : Reader) (limit : ℤ) (file : BackupFile) : Checked Verdict :=
  match m.members file.bytes with
  | none => .ok { path := file.path, errors := ["backup_zip_invalid"] }
  | some members =>
    match verifyMembers m limit (tableVerdict limit file.path members) members with
    | .ok verdict | .error (.blocked verdict) => .ok verdict
    | .error (.raised e) => .error e

/-- `_frozen_backup_source` and what it encloses. -/
def verifyFrozen (m : Reader) (limit : ℤ) (file : BackupFile) : Checked Verdict := do
  require file.regular (.value "backup_not_regular_file")
  require (file.bytes.length ≤ limit) (.value "backup_archive_size_limit_exceeded")
  let verdict ← verifyFrozenBackupArchive m limit file
  return { verdict with
    archiveSha256 := m.digests.content file.bytes
    archiveBytes := file.bytes.length }

/-- `verify_backup_archive`. -/
def verifyBackupArchive (m : Reader) (limit : ℤ) (file : BackupFile) : Checked Verdict := do
  require (0 < limit) (.value "invalid_backup_verify_limit")
  match verifyFrozen m limit file with
  | .error (.value message) => return { path := file.path, errors := [message] }
  | result => result

end OrchKit.Archive
