import OrchKit.Bridge.Processes
import OrchKit.Bridge.Store
import OrchKit.Bridge.Workspace
import OrchKit.Ledger.Operations

/-! # Operations of the bridge

The ledger, the process rows beside it, the evidence under the runtime directory and the
workspace, under the operations the bridge issues one at a time. Any of them may fail,
before or after it has taken effect, and whether a caller still has its authority is
asked of the ledger and of the host each time.
-/

namespace OrchKit.Bridge

open Except Program Table

/-- What the bridge computes with, and who it runs as. -/
structure Machine where
  sha : Sha256
  digests : Digests
  processHash : ProcessEvent → Digest
  uid : UInt64
  maxProcessesTotal : ℕ := 6
  maxProcessesPerRun : ℕ := 2

structure State where
  ledger : Ledger
  processes : List ProcessRow := []
  runtime : Runtime := {}
  files : Files := ∅
  /-- The directories from the root of the workspace to a target. -/
  anchors : String → Anchors := fun _ => ⟨(1, 1), [(1, 1)], (1, 1)⟩

/-- An operation that fails does so before or after it has taken effect. -/
inductive Fault
  | before
  | after
  deriving DecidableEq

/-- What the environment decides of one operation. -/
structure Env where
  fault : Option Fault := none
  /-- The parts of an authority check that do not look at the ledger. -/
  authority : Bool := true
  name : TempName := []
  now : ℕ := 0
  stamp : UInt64 := 0
  created : NewInode := ⟨1, 1, 0, by decide⟩
  written : ℕ := 0
  host : Host

/-- `OSError`. -/
def ioError : Exn := .other "OSError" "Input/output error"

/-! ### Authority -/

/-- `_ledger_worker_binding`; a task without a project has none that a request could name. -/
def ledgerBinding (runId : RunId) (run : Run) (task : Task) : Option WorkerRunBinding :=
  task.payload.projectId.map fun projectId =>
    ⟨projectId, task.payload.writerKey, run.taskId, runId, run.attempt⟩

def joined (L : Ledger) (runId : RunId) : Option (Run × Task) :=
  (L.runs.lookup runId).bind fun run => (L.tasks.lookup run.taskId).map fun task => (run, task)

def soleWriter (L : Ledger) (key : WriterKey) (runId : RunId) : Prop :=
  (L.activeWriterLocks.filter fun e => e.2.2.payload.writerKey = key).map (·.1) = [runId]

instance (L : Ledger) (key : WriterKey) (runId : RunId) : Decidable (soleWriter L key runId) :=
  inferInstanceAs (Decidable (_ = _))

/-- `_require_live_run`, up to the checks of the registered project. -/
def requireLiveRun (L : Ledger) (view : View) (binding : WorkerRunBinding) : Checked Unit := do
  let lease : String ← view (.leaseFromCapability binding.runId)
  let (run, task) ← ofOption (joined L binding.runId) (.value "bridge_run_unknown")
  require (ledgerBinding binding.runId run task = some binding) (.value "bridge_run_scope_mismatch")
  require (run.state = .running ∧ task.status = .inProgress) (.value "bridge_run_not_active")
  require (run.leaseToken = lease) (.value "bridge_capability_denied")
  require (L.latestAttempt binding.taskId = some binding.attempt) (.value "bridge_stale_attempt")
  require (soleWriter L binding.writerKey binding.runId) (.value "bridge_writer_not_exclusive")

/-! ### Process rows -/

namespace State

variable (m : Machine) (s : State)

/-- `_chains` of a run. -/
def chainsOf (runId : RunId) (expected : Option WorkerRunBinding) : Checked ProcessChains :=
  chains m.processHash s.processes runId expected
    ((joined s.ledger runId).bind fun e => ledgerBinding runId e.1 e.2)

/-- `_unresolved_processes`. -/
def unresolvedProcesses : Checked ℕ :=
  (s.processes.map (·.event.binding.runId)).dedup.foldlM (fun total runId => do
    let (run, task) ← ofOption (joined s.ledger runId) (.value "process_run_unknown")
    let c ← s.chainsOf m runId (ledgerBinding runId run task)
    return total + (c.intents.length - c.terminals.length)) 0

/-- The transaction of `dispatch`. -/
def dispatchProcess (dispatch : ProcessDispatch) : Checked (List ProcessRow) := do
  let expected := dispatch.request.binding
  require dispatch.valid (.value "process_invalid_record")
  let (run, task) ← ofOption (joined s.ledger expected.runId) (.value "process_run_unknown")
  require (ledgerBinding expected.runId run task = some expected ∧ run.state = .running ∧
    task.status = .inProgress) (.value "process_run_not_active")
  require (s.ledger.latestAttempt expected.taskId = some expected.attempt ∧
    soleWriter s.ledger expected.writerKey expected.runId) (.value "process_writer_not_exclusive")
  let c ← s.chainsOf m expected.runId (some expected)
  require (c.intents.all fun intent =>
      intent.2.request.operationId ≠ dispatch.request.operationId ∧
        intent.2.handle ≠ dispatch.handle) (.value "process_duplicate_dispatch")
  let unresolved ← s.unresolvedProcesses m
  require (c.intents.length < maxDispatches ∧
      c.intents.length - c.terminals.length < m.maxProcessesPerRun ∧
      unresolved < m.maxProcessesTotal) (.value "process_capacity")
  insertProcessRow s.processes (.dispatchIntent dispatch)

/-- The transaction of `observe_exit`, of the intent in the row `seq`. -/
def observeExit (seq : ℕ) (dispatch : ProcessDispatch) (exit : ProcessExit) :
    Checked (List ProcessRow) := do
  let binding := dispatch.request.binding
  require (ProcessEvent.valid (.exitObserved dispatch exit) ∧ exit.intentSeq = seq)
    (.value "process_invalid_record")
  let c ← s.chainsOf m binding.runId (some binding)
  require (c.intents.lookup seq = some dispatch ∧
      exit.intentHash = m.processHash (.dispatchIntent dispatch) ∧ c.terminals.lookup seq = none)
    (.value "process_exit_intent_mismatch")
  insertProcessRow s.processes (.exitObserved dispatch exit)

/-- `require_processes_resolved`, with the rows as it leaves them. -/
def requireProcessesResolved (runId : RunId) : Checked (List ProcessRow) := do
  let (run, task) ← ofOption (joined s.ledger runId) (.value "process_unresolved")
  let binding := ledgerBinding runId run task
  let c ← s.chainsOf m runId binding
  require (c.intents.length = c.terminals.length) (.value "process_unresolved")
  match binding, c.intents with
  | some binding, _ :: _ =>
    insertProcessRow s.processes
      (.closureAcknowledged binding
        (c.intents.filterMap fun intent => c.link m.processHash intent.1))
  | _, _ => return s.processes

end State

/-! ### The runtime directory -/

namespace Runtime

variable (s : Runtime)

def updateRun (runHash : Digest) (f : RunDir → RunDir) : Runtime :=
  { s with execution := s.execution.map fun runs => runs.modify runHash f }

def updateOp (runHash operationHash : Digest) (f : OpDir → OpDir) : Runtime :=
  s.updateRun runHash fun run => run.modify operationHash f

def findOp (runHash operationHash : Digest) : Option OpDir :=
  s.execution.bind fun runs => (runs.lookup runHash).bind fun run => run.lookup operationHash

def makeExecution : Runtime := { s with execution := some (s.execution.getD ∅) }

def makeRun (runHash : Digest) : Runtime :=
  { s with execution := s.execution.map fun runs =>
    if (runs.lookup runHash).isSome then runs else runs.put runHash ∅ }

def makeOperation (runHash operationHash : Digest) : Runtime :=
  s.updateRun runHash fun run =>
    if (run.lookup operationHash).isSome then run else run.put operationHash {}

def stage (runHash operationHash : Digest) (name : TempName) : Runtime :=
  s.updateOp runHash operationHash fun dir => { dir with temps := dir.temps ++ [name] }

def unstage (runHash operationHash : Digest) (name : TempName) : Runtime :=
  s.updateOp runHash operationHash fun dir => { dir with temps := dir.temps.erase name }

def link (runHash operationHash : Digest) (record : ExecutionRecord) : Runtime :=
  s.updateOp runHash operationHash fun dir => { dir with chain := dir.chain.put record }

def updateIntents (runHash : Digest) (f : IntentDir → IntentDir) : Runtime :=
  { s with journal := s.journal.map fun runs => runs.modify runHash f }

def makeJournal : Runtime := { s with journal := some (s.journal.getD ∅) }

def makeIntentRun (runHash : Digest) : Runtime :=
  { s with journal := s.journal.map fun runs =>
    if (runs.lookup runHash).isSome then runs else runs.put runHash {} }

def stageIntent (runHash : Digest) (name : TempName) : Runtime :=
  s.updateIntents runHash fun dir => { dir with temps := dir.temps ++ [(name, none)] }

/-- The staging file becomes a second name of the record. -/
def linkIntent (runHash operationHash : Digest) (name : TempName) (intent : IntentRecord) :
    Runtime :=
  s.updateIntents runHash fun dir =>
    { records := dir.records.put operationHash intent
      temps := dir.temps.map fun t => if t.1 = name then (name, some operationHash) else t }

def unstageIntent (runHash : Digest) (name : TempName) : Runtime :=
  s.updateIntents runHash fun dir => { dir with temps := dir.temps.filter (·.1 ≠ name) }

end Runtime

/-! ### Operations -/

/-- Observations that answer whatever they find. -/
inductive Look
  | census
  | inspect (runId : RunId) (operationId : String)
  | inspectIntent (runId : RunId) (operationId : String)

abbrev Look.Value : Look → Type
  | census => Census
  | inspect .. => Found Chain
  | inspectIntent .. => Found IntentRecord

/-- What `_PatchTargetHandle` pins of an open target. -/
structure Handle where
  anchors : Anchors
  signature : FileSignature
  metadata : Metadata
  deriving DecidableEq

/-- Operations that answer or raise. -/
inductive Act
  | authorize (binding : WorkerRunBinding)
  | checkLock
  | now
  | randomName
  -- the ledger
  | dispatchProcess (dispatch : ProcessDispatch)
  | observeExit (seq : ℕ) (dispatch : ProcessDispatch) (exit : ProcessExit)
  | bindingOf (runId : RunId)
  | close (t : Txn) (execution : Checked Unit)
  -- the execution store
  | evidence (runId : RunId) (operationId : String) (expected : Chain)
      (request : Option WorkerOperationRequest) (binding : Option WorkerRunBinding)
  | makeExecution
  | makeRun (runHash : Digest)
  | makeOperation (runHash operationHash : Digest)
  | stage (runHash operationHash : Digest) (name : TempName)
  | openStaged
  | writeStaged
  | link (runHash operationHash : Digest) (name : TempName) (record : ExecutionRecord)
  | unstage (runHash operationHash : Digest) (name : TempName)
  | readBack (runHash operationHash : Digest) (record : ExecutionRecord)
  -- the intent journal
  | journalReady
  | journalInventory
  | intentEvidence (intent : IntentRecord) (dispatch : DispatchRecord)
  | makeJournal
  | lockJournal
  | makeIntentRun (runHash : Digest)
  | stageIntent (runHash : Digest) (name : TempName)
  | linkIntent (runHash operationHash : Digest) (name : TempName) (intent : IntentRecord)
  | unstageIntent (runHash : Digest) (name : TempName)
  | readIntent (runId : RunId) (operationId : String)
  -- the workspace
  | liveScope (binding : WorkerRunBinding)
  | openTarget (target : String)
  | checkTarget (target : String) (handle : Handle) (original : Bool)
  | readFile (target : String)
  | capture (path : String)
  | entry (path : String)
  | createFile (path : String)
  | write (path : String) (bytes : Bytes)
  | copyMetadata (metadata : Metadata) (path : String)
  | sync (path : String)
  | rename (temp target : String)
  | unlink (path : String)

abbrev Act.Value : Act → Type
  | now => ℕ
  | randomName => TempName
  | bindingOf _ => Option WorkerRunBinding
  | close .. => Reply
  | evidence .. => Chain
  | journalInventory => List (Digest × List IntentRecord)
  | linkIntent .. => Bool
  | readIntent .. => IntentRecord
  | liveScope _ => List String
  | openTarget _ => Handle
  | readFile _ => Bytes
  | capture _ => Content × Bytes × Metadata
  | entry _ => Option FileSignature
  | createFile _ => FileSignature
  | write .. => ℕ
  | _ => Unit

inductive Op
  | ledger (o : OrchKit.Op)
  | look (l : Look)
  | act (a : Act)

abbrev Op.Ans : Op → Type
  | ledger o => o.Ans
  | look l => l.Value
  | act a => Checked a.Value

abbrev bridgeSig : Sig := ⟨Op, Op.Ans⟩

def Look.see (m : Machine) (s : State) : (l : Look) → l.Value
  | census => s.runtime.census m.digests m.uid.toNat
  | inspect runId operationId => s.runtime.inspect m.digests m.uid.toNat runId operationId
  | inspectIntent runId operationId => s.runtime.inspectIntent m.digests runId operationId

/-- What an observation answers when it is disturbed. -/
def Look.disturbed : (l : Look) → l.Value
  | census => .unknown
  | inspect .. => .unknown
  | inspectIntent .. => .unknown

/-- A host that answers for the evidence of a run. -/
def resolvedHost (host : Host) (execution processes : Checked Unit) : Host := fun n o =>
  match o with
  | .executionResolved _ => execution
  | .processesResolved _ => processes
  | o => host n o

def Txn.runId? : Txn → Option RunId
  | .submit runId .. => some runId
  | .quiesce runId _ => some runId
  | .abort runId .. => some runId
  | _ => none

namespace Act

variable (m : Machine) (env : Env) (s : State)

/-- `submit`, `quiesce` or `abort`, once the execution evidence has been looked at. -/
def runClose (t : Txn) (execution : Checked Unit) : Checked (Reply × State) := do
  let processes := match Txn.runId? t with
    | some runId => s.requireProcessesResolved m runId
    | none => .ok s.processes
  let host := resolvedHost env.host execution (processes.map fun _ => ())
  let (reply, L) ← t.run m.sha host s.ledger
  let rows ← processes
  return (reply, { s with ledger := L, processes := rows })

/-- What an operation answers, and the state it leaves, if nothing fails. -/
def perform : (a : Act) → Checked (a.Value × State)
  | authorize binding => do
    require env.authority (.value "bridge_session_mismatch")
    requireLiveRun s.ledger (env.host 0) binding
    return ((), s)
  | checkLock => return ((), s)
  | now => return (env.now, s)
  | randomName => return (env.name, s)
  | dispatchProcess dispatch => do
    let rows ← s.dispatchProcess m dispatch
    return ((), { s with processes := rows })
  | observeExit seq dispatch exit => do
    let rows ← s.observeExit m seq dispatch exit
    return ((), { s with processes := rows })
  | bindingOf runId => do
    let (run, task) ← ofOption (joined s.ledger runId) (.value "process_run_unknown")
    return (ledgerBinding runId run task, s)
  | close t execution => runClose m env s t execution
  | evidence runId operationId expected request binding => do
    let chain ← ofOption
      (s.runtime.evidence m.digests m.uid.toNat runId operationId expected request
      binding) (.value "patch_execution_evidence_changed")
    return (chain, s)
  | makeExecution => return ((), { s with runtime := s.runtime.makeExecution })
  | makeRun runHash => return ((), { s with runtime := s.runtime.makeRun runHash })
  | makeOperation runHash operationHash =>
    return ((), { s with runtime := s.runtime.makeOperation runHash operationHash })
  | stage runHash operationHash name => do
    require ((s.runtime.findOp runHash operationHash).any fun dir => name ∉ dir.temps) ioError
    return ((), { s with runtime := s.runtime.stage runHash operationHash name })
  | openStaged => return ((), s)
  | writeStaged => return ((), s)
  | link runHash operationHash name record => do
    require ((s.runtime.findOp runHash operationHash).any fun dir =>
      name ∈ dir.temps ∧ dir.chain.record record.phase = none) ioError
    return ((), { s with runtime := s.runtime.link runHash operationHash record })
  | unstage runHash operationHash name => do
    require ((s.runtime.findOp runHash operationHash).any fun dir => name ∈ dir.temps) ioError
    return ((), { s with runtime := s.runtime.unstage runHash operationHash name })
  | readBack runHash operationHash record => do
    require ((s.runtime.findOp runHash operationHash).any fun dir =>
      (s.runtime.readOperation m.digests m.uid.toNat runHash operationHash dir).any fun chain =>
        chain.record record.phase = some record) (.value "patch_execution_publication_changed")
    return ((), s)
  | journalReady => do
    require (s.runtime.journalReady m.digests) (.value "patch_execution_intent_unknown")
    return ((), s)
  | journalInventory => do
    require (s.runtime.journalReady m.digests) (.value "journal_unsafe_entry")
    let runs ← ofOption s.runtime.journal ioError
    return (runs.entries.map fun e => (e.1, e.2.records.rows), s)
  | intentEvidence intent dispatch => do
    let binding := intent.request.binding
    require (s.runtime.journalListed m.digests binding.runId ∧
      s.runtime.inspectIntent m.digests binding.runId intent.request.operationId =
        .recorded intent ∧
      Chain.valid m.digests m.uid.toNat intent { dispatch := dispatch })
      (.value "patch_execution_evidence_changed")
    return ((), s)
  | makeJournal => return ((), { s with runtime := s.runtime.makeJournal })
  | lockJournal => return ((), s)
  | makeIntentRun runHash => return ((), { s with runtime := s.runtime.makeIntentRun runHash })
  | stageIntent runHash name =>
      return ((), { s with runtime := s.runtime.stageIntent runHash name })
  | linkIntent runHash operationHash name intent =>
    let dir := s.runtime.journal.bind fun runs => runs.lookup runHash
    if dir.any fun dir => (dir.records.lookup operationHash).isSome then
      return (false, s)
    else
      return (true, { s with runtime := s.runtime.linkIntent runHash operationHash name intent })
  | unstageIntent runHash name =>
    return ((), { s with runtime := s.runtime.unstageIntent runHash name })
  | readIntent runId operationId =>
    match s.runtime.inspectIntent m.digests runId operationId with
    | .recorded intent => return (intent, s)
    | _ => .error (.value "journal_record_changed")
  | liveScope binding => do
    require env.authority (.value "bridge_file_scope_project_denied")
    requireLiveRun s.ledger (env.host 0) binding
    let (_, task) ← ofOption (joined s.ledger binding.runId) (.value "bridge_file_scope_run_denied")
    require (task.payload.allowedPaths ≠ []) (.value "bridge_file_scope_task_denied")
    return (task.payload.allowedPaths, s)
  | openTarget target => do
    let file ← ofOption (s.files.lookup target) (.value "bridge_file_scope_path_denied")
    require (file.capturable m.uid.toNat) (.value "patch_metadata_target_unsafe")
    return (⟨s.anchors target, file.signature, file.metadata⟩, s)
  | checkTarget target handle original => do
    require (s.anchors target = handle.anchors) (.value "bridge_file_scope_path_changed")
    require (original → (s.files.lookup target).any fun file =>
      file.signature = handle.signature ∧ file.metadata = handle.metadata)
      (.value "bridge_file_scope_path_changed")
    return ((), s)
  | readFile target => do
    let file ← ofOption (s.files.lookup target) (.value "file_read_denied")
    require (isRegular file.mode.toNat ∧ file.data.length ≤ workerMaxOutputBytes)
      (.value "file_read_too_large")
    return (file.data, s)
  | capture path => do
    let file ← ofOption (s.files.lookup path) ioError
    require (file.capturable m.uid.toNat) (.value "patch_metadata_target_unsafe")
    return ((file.content m.digests, file.data, file.metadata), s)
  | entry path => return ((s.files.lookup path).map Inode.signature, s)
  | createFile path => do
    require (s.files.lookup path = none ∧ s.files.entries.all fun e => e.2.ino ≠ env.created.ino)
      ioError
    let file := env.created.file m.uid env.stamp
    return (file.signature, { s with files := s.files.put path file })
  | write path bytes => do
    let file ← ofOption (s.files.lookup path) ioError
    require (0 < env.written ∧ env.written ≤ bytes.length) ioError
    let data := file.data ++ bytes.take env.written
    let file := { file with data := data, mtimeNs := env.stamp, ctimeNs := env.stamp }
    return (env.written, { s with files := s.files.put path file })
  | copyMetadata metadata path => do
    let file ← ofOption (s.files.lookup path) ioError
    require (file.capturable m.uid.toNat ∧ file.mode % 4096 = 0o600)
      (.value "patch_metadata_temp_unsafe")
    let copied := file.withMetadata metadata env.stamp
    require (copied.capturable m.uid.toNat ∧ copied.metadata = metadata)
      (.value "patch_metadata_copy_unverified")
    return ((), { s with files := s.files.put path copied })
  | sync _ => return ((), s)
  | rename temp target => do
    let file ← ofOption (s.files.lookup temp) ioError
    return ((), { s with
      files := (s.files.delete temp).put target { file with ctimeNs := env.stamp } })
  | unlink path => do
    require (s.files.lookup path).isSome ioError
    return ((), { s with files := s.files.delete path })

/-- What an operation answers, and the state it leaves. -/
def answer (a : Act) : Checked a.Value × State :=
  match perform m env s a with
  | .error e => (.error e, s)
  | .ok (value, s') =>
    match env.fault with
    | none => (.ok value, s')
    | some .before => (.error ioError, s)
    | some .after => (.error ioError, s')

end Act

/-- The bridge under atomic operations, in whatever environment. -/
def bridgeSemantics (m : Machine) : Semantics bridgeSig State Env where
  answer env s
    | .ledger o =>
      ((ledgerSemantics m.sha).answer env.host s.ledger o |>.1,
        { s with ledger := (ledgerSemantics m.sha).after env.host s.ledger o })
    | .look l => (if env.fault.isSome then l.disturbed else l.see m s, s)
    | .act a => a.answer m env s

end OrchKit.Bridge
