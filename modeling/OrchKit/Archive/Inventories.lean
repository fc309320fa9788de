import Mathlib.Data.Char
import Mathlib.Data.List.Lex
import OrchKit.Archive.Verification
import OrchKit.Bridge.Store
import OrchKit.Data.Files
import OrchKit.Data.Loops

/-! # The inventories of a home

The intents and the records of patch executions as they are read from the directories of a home:
each directory is listed and nothing in it may be unexpected, each file is read as JSON, and its
contents must be what its names are digests of. Nothing changes while they are read, so the checks
that compare two readings are left out, and so are those of the lock and of the descriptors.
-/

namespace OrchKit.Archive

open Except Json Bridge Files

/-! ### Homes -/

abbrev Name := List Char

/-- What `stat` says besides the type and the size. -/
structure Info where
  uid : ℕ
  mode : ℕ
  nlink : ℕ

/-- A regular file. -/
structure File where
  info : Info
  bytes : Bytes

def runtimeName : Name := ".runtime".toList

def journalName : Name := "operation_journal".toList

def executionName : Name := "patch_execution".toList

/-- What stands at the ends of paths: files, and directories with nothing in them. -/
abbrev Tree := List (List Name × Option File)

/-- A home, with what `stat` says of its directories. -/
structure Home where
  tree : Tree
  directory : List Name → Info
  proper : Proper tree
  named : ∀ e ∈ tree, e.1 ≠ [] ∧ ∀ name ∈ e.1, name ≠ [] ∧ '/' ∉ name
  stores : ∀ e ∈ filesOf tree, e.1 ∉ [[runtimeName], [runtimeName, journalName],
    [runtimeName, executionName]]

/-- What stands below one of the two directories, by the paths from there. -/
def Home.store (home : Home) (name : Name) : Tree :=
  child (child home.tree runtimeName) name

def Home.files (home : Home) (name : Name) : List (List Name × File) := filesOf (home.store name)

def memberName (path : List Name) : String :=
  String.ofList ("files/".toList ++ ['/'].intercalate path)

def fileMember (e : List Name × File) : Member :=
  ⟨memberName e.1, e.2.bytes.length, (0o100000 ||| e.2.info.mode) <<< 16, some e.2.bytes⟩

/-- An archive has the files of a home and no directories. -/
def Home.members (home : Home) : List Member := (filesOf home.tree).map fileMember

/-! ### Directories -/

section Directories

variable (m : Reader) (home : Home)

/-- `_open_home`. -/
def openHome (message : String) : Checked Unit :=
  require ((home.directory []).uid = m.uid) (.value message)

/-- What `os.stat` finds under a name. -/
def entry? (t : Tree) (name : Name) : Option Tree :=
  if child t name = [] then none else some (child t name)

def fileAt (t : Tree) : Option File := file? (filesOf t)

/-- `_directory_at`, of what is there. -/
def directoryAt (path : List Name) (t : Tree) : Checked Unit :=
  require (fileAt t = none ∧ (home.directory path).uid = m.uid ∧ (home.directory path).mode = 0o700)
    (.value "journal_unsafe_directory")

/-- The limit of `_names`. -/
def checkNames (t : Tree) (limit : ℕ) : Checked Unit :=
  require ((listing t).length ≤ limit) (.value "journal_capacity_exceeded")

/-- `_anchors`: the directory, if it is there. -/
def storeAt (name : Name) : Checked (Option Tree) :=
  match entry? home.tree runtimeName with
  | none => return none
  | some runtime => do
    directoryAt m home [runtimeName] runtime
    match entry? runtime name with
    | none => return none
    | some t => do
      directoryAt m home [runtimeName, name] t
      return some t

/-- `_id_hash`. -/
def idHash (id : String) : Checked Digest := do
  require (isHashable id) (.value "journal_invalid_identifier")
  return m.digests.id id

/-- The request has the identifiers that two names are the digests of. -/
def checkIdentifiers (key : Digest × Digest) (request : WorkerOperationRequest) (message : String) :
    Checked Unit := do
  let run ← idHash m request.binding.runId
  require (run = key.1) (.value message)
  let operation ← idHash m request.operationId
  require (operation = key.2) (.value message)

end Directories

/-- A census of a store. -/
inductive Inventory (α : Type)
  | absent
  | ready (entries : List α)
  | unknown

/-- What the census of a store says, all that is declared being caught. -/
def Inventory.of {α : Type} : Checked (Option (List α)) → Checked (Inventory α)
  | .ok none => .ok .absent
  | .ok (some entries) => .ok (.ready entries)
  | .error (.value _) => .ok .unknown
  | .error e => .error e

/-! ### Intents -/

section Journal

variable (m : Reader) (home : Home)

/-- The bytes of a record of the journal. -/
def readRecordBytes (t : Tree) : Checked Bytes := do
  let file ← ofOption (fileAt t) (.value "journal_unsafe_record")
  require (file.info.uid = m.uid ∧ file.info.nlink = 1 ∧ file.info.mode = 0o600)
    (.value "journal_unsafe_record")
  require (file.bytes.length ≤ recordMaxBytes) (.value "journal_record_too_large")
  return file.bytes

/-- `_read_record` and `_decode`. -/
def readIntent (key : Digest × Digest) (t : Tree) : Checked IntentRecord := do
  let bytes ← readRecordBytes m t
  let v ← ofOption (m.loadsUnique bytes) (.value "journal_invalid_json")
  let intent ← ofOption (validateIntentRecord m.toVerifier v) (.value "journal_invalid_record")
  checkIdentifiers m key intent.request "journal_identifier_mismatch"
  return intent

def intentFile (operation : Digest) : Name := operation ++ ".json".toList

/-- The intent of an operation, if it is there. -/
def intentAt (key : Digest × Digest) (t : Tree) :
    Checked (Option IntentRecord) :=
  match entry? t key.1 with
  | none => return none
  | some run => do
    directoryAt m home [runtimeName, journalName, key.1] run
    match entry? run (intentFile key.2) with
    | none => return none
    | some t => do
      let intent ← readIntent m key t
      return some intent

def lookupIntent (runId : RunId) (operationId : String) : Checked (Option IntentRecord) := do
  let run ← idHash m runId
  let operation ← idHash m operationId
  openHome m home "journal_home_denied"
  let t ← storeAt m home journalName
  match t with
  | none => return none
  | some t => intentAt m home (run, operation) t

/-- `OperationIntentJournal.inspect`. All that is raised below it is a `ValueError`. -/
def inspectIntent (runId : RunId) (operationId : String) : Found IntentRecord :=
  match lookupIntent m home runId operationId with
  | .ok none => .absent
  | .ok (some intent) => .recorded intent
  | .error _ => .unknown

def journalFile? (name : Name) : Option Digest :=
  if name.length = 69 ∧ ".json".toList <:+ name ∧ isDigest (name.take 64) then some (name.take 64)
  else none

/-- One round of the loop over the names in the directory of a run. -/
def journalEntry (t : Tree) (run name : Name) : Checked IntentRecord := do
  let operation ← ofOption (journalFile? name) (.value "journal_unsafe_entry")
  readIntent m (run, operation) (child (child t run) name)

def journalRun (t : Tree) (run : Name) : Checked Unit := do
  require (isDigest run) (.value "journal_unsafe_entry")
  directoryAt m home [runtimeName, journalName, run] (child t run)
  checkNames (child t run) journalMaxRecordsPerRun

/-- The two loops of a census: over the runs, and over the names in the directory of each. -/
def census {α : Type} (limit : ℕ) (message : String) (run : Name → Checked Unit)
    (read : Name → Name → Checked α) (t : Tree) : Checked (List α) :=
  (listing t).foldlM (fun entries a => do
    run a
    collect limit (.value message) (read a) entries (listing (child t a))) []

def journalCensus (t : Tree) : Checked (List IntentRecord) := do
  checkNames t journalMaxRecords
  census journalMaxRecords "journal_capacity_exceeded" (journalRun m home t) (journalEntry m t) t

/-- `journal_inventory`. -/
def journalInventory : Checked (Inventory IntentRecord) :=
  Inventory.of do
    openHome m home "journal_home_denied"
    let t ← storeAt m home journalName
    t.mapM (journalCensus m home)

end Journal

/-! ### Executions -/

section Execution

variable (m : Reader) (home : Home)

/-- The bytes of a record of an execution. -/
def readExecutionBytes (t : Tree) : Checked Bytes := do
  let file ← ofOption (fileAt t) (.value "patch_execution_unsafe_record")
  require (file.info.uid = m.uid ∧ file.info.nlink = 1 ∧ file.info.mode = 0o600 ∧
    0 < file.bytes.length ∧ file.bytes.length ≤ recordMaxBytes)
    (.value "patch_execution_unsafe_record")
  return file.bytes

/-- What was read of a file: its phase, its JSON, of which `_record` returns a copy, and the record
in it. -/
structure PhaseRecord where
  phase : Phase
  value : Value
  record : ExecutionRecord

/-- `_read_record` and `_decode_record`. -/
def readPhaseRecord (t : Tree) (phase : Phase) : Checked PhaseRecord := do
  let bytes ← readExecutionBytes m (child t (phaseFile phase).toList)
  let v ← ofOption (m.loadsUnique bytes) (.value "patch_execution_invalid_json")
  let record ← readRecord m.toVerifier v
  return ⟨phase, v, record⟩

def phasesIn (t : Tree) : List Phase :=
  phases.filter fun phase => (phaseFile phase).toList ∈ listing t

def readPhaseRecords (t : Tree) : Checked (List PhaseRecord) := do
  checkNames t 3
  require (∀ name ∈ listing t, name ∈ phases.map fun phase => (phaseFile phase).toList)
    (.value "patch_execution_unexpected_entry")
  let records ← (phasesIn t).mapM (readPhaseRecord m t)
  require (records.length ≠ 0) (.value "patch_execution_partial_directory")
  return records

/-- The request of the record in the place of the dispatch. -/
def dispatchRequest (records : List PhaseRecord) : Checked WorkerOperationRequest := do
  let dispatch ← ofOption (records.find? fun r => r.phase = .dispatch)
    (.value "patch_execution_invalid_chain")
  return dispatch.record.base.request

def recordedIntent (runId : RunId) (operationId : String) : Checked IntentRecord :=
  match inspectIntent m home runId operationId with
  | .recorded intent => .ok intent
  | _ => .error (.value "patch_execution_intent_unknown")

/-- `_operation`. -/
def readOperation (key : Digest × Digest) (t : Tree) : Checked Chain := do
  let records ← readPhaseRecords m t
  let request ← dispatchRequest records
  checkIdentifiers m key request "patch_execution_identifier_mismatch"
  let intent ← recordedIntent m home request.binding.runId request.operationId
  validateExecutionRecords m.toVerifier intent (records.map fun r => (r.phase, r.value))

/-- One round of the loop over the names in the directory of a run. -/
def executionEntry (t : Tree) (run operation : Name) : Checked Operation := do
  require (isDigest operation) (.value "patch_execution_unexpected_entry")
  let t := child (child t run) operation
  directoryAt m home [runtimeName, executionName, run, operation] t
  let chain ← readOperation m home (run, operation) t
  let dispatch ← ofOption chain.dispatch (.value "patch_execution_invalid_chain")
  return ⟨dispatch.request.binding.runId, dispatch.request.operationId, chain⟩

def executionRun (t : Tree) (run : Name) : Checked Unit := do
  require (isDigest run) (.value "patch_execution_unexpected_entry")
  directoryAt m home [runtimeName, executionName, run] (child t run)
  checkNames (child t run) executionMaxOperationsPerRun
  require (listing (child t run) ≠ []) (.value "patch_execution_partial_directory")

def executionCensus (t : Tree) : Checked (List Operation) := do
  checkNames t executionMaxOperations
  require (listing t ≠ []) (.value "patch_execution_partial_directory")
  census executionMaxOperations "patch_execution_capacity_exceeded" (executionRun m home t)
    (executionEntry m home t) t

/-- `execution_inventory`. -/
def executionInventory : Checked (Inventory Operation) :=
  Inventory.of do
    openHome m home "journal_unsafe_directory"
    let t ← storeAt m home executionName
    t.mapM (executionCensus m home)

end Execution

end OrchKit.Archive
