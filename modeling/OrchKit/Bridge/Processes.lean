import OrchKit.Bridge.Records

/-! # Process evidence

The rows that the bridge keeps about processes in the ledger's events: the intent to
dispatch one, the exit that was observed of it, and the acknowledgement of all exits of
a run when the run is closed. The rows of a run are read as chains, and anything out of
order among them is an error.
-/

namespace OrchKit.Bridge

open Except

inductive ExitReason
  | exited
  | terminated
  | deadline
  | ownerCleanup
  deriving DecidableEq

def ExitReason.text : ExitReason → String
  | exited => "exited"
  | terminated => "terminated"
  | deadline => "deadline"
  | ownerCleanup => "owner_cleanup"

/-- What the dispatch and the exit of a process have in common. -/
structure ProcessDispatch where
  request : WorkerOperationRequest
  sessionHash : Digest
  profileHash : Digest
  handle : String
  deriving DecidableEq

structure ProcessExit where
  intentSeq : ℕ
  intentHash : Digest
  exitCode : ℤ
  reason : ExitReason
  outputBytes : ℕ
  truncated : Bool
  deriving DecidableEq

structure ExitLink where
  intentSeq : ℕ
  intentHash : Digest
  exitSeq : ℕ
  exitHash : Digest
  deriving DecidableEq

inductive ProcessEvent
  | dispatchIntent (dispatch : ProcessDispatch)
  | exitObserved (dispatch : ProcessDispatch) (exit : ProcessExit)
  | closureAcknowledged (binding : WorkerRunBinding) (exits : List ExitLink)
  deriving DecidableEq

structure ProcessRow where
  seq : ℕ
  event : ProcessEvent
  deriving DecidableEq

def maxDispatches : ℕ := 64

def maxRunRows : ℕ := 132

def maxRecordBytes : ℕ := 8192

def maxAckBytes : ℕ := 32768

section Size

open Canonical

def ProcessDispatch.fields (dispatch : ProcessDispatch) : List (String × ℕ) :=
  [("handle", str dispatch.handle), ("profile_hash", chars dispatch.profileHash),
    ("request", dispatch.request.bytes), ("schema_version", nat 1),
    ("session_hash", chars dispatch.sessionHash)]

def ExitLink.bytes (link : ExitLink) : ℕ :=
  obj [("exit_hash", chars link.exitHash), ("exit_seq", nat link.exitSeq),
    ("intent_hash", chars link.intentHash), ("intent_seq", nat link.intentSeq)]

end Size

namespace ProcessEvent

open Canonical in
/-- The size of what `_encode` makes of the payload. -/
def bytes : ProcessEvent → ℕ
  | dispatchIntent dispatch => obj dispatch.fields
  | exitObserved dispatch exit => obj <| dispatch.fields ++
      [("exit_code", int exit.exitCode), ("intent_hash", chars exit.intentHash),
        ("intent_seq", nat exit.intentSeq), ("output_bytes", nat exit.outputBytes),
        ("reason", word exit.reason.text), ("truncated", Canonical.bool exit.truncated)]
  | closureAcknowledged binding exits =>
    obj [("binding", binding.bytes), ("exits", arr (exits.map ExitLink.bytes)),
      ("schema_version", nat 1)]

def maxBytes : ProcessEvent → ℕ
  | closureAcknowledged .. => maxAckBytes
  | _ => maxRecordBytes

def binding : ProcessEvent → WorkerRunBinding
  | dispatchIntent dispatch => dispatch.request.binding
  | exitObserved dispatch _ => dispatch.request.binding
  | closureAcknowledged binding _ => binding

end ProcessEvent

def ProcessDispatch.valid (dispatch : ProcessDispatch) : Bool :=
  dispatch.request.valid && dispatch.request.kind = .processStart &&
    isDigest dispatch.sessionHash &&
    isDigest dispatch.profileHash && identifier 200 isWord dispatch.handle

def ProcessExit.valid (exit : ProcessExit) : Bool :=
  1 ≤ exit.intentSeq && exit.intentSeq < 2 ^ 63 && isDigest exit.intentHash &&
    -(2 ^ 31) ≤ exit.exitCode && exit.exitCode < 2 ^ 31 && exit.outputBytes < 2 ^ 63

def ExitLink.valid (link : ExitLink) : Bool :=
  1 ≤ link.intentSeq && link.intentSeq < 2 ^ 63 && 1 ≤ link.exitSeq && link.exitSeq < 2 ^ 63 &&
    isDigest link.intentHash && isDigest link.exitHash

/-- The fields of a payload are of the right form. -/
def ProcessEvent.wellFormed : ProcessEvent → Bool
  | dispatchIntent dispatch => dispatch.valid
  | exitObserved dispatch exit => dispatch.valid && exit.valid
  | closureAcknowledged binding exits =>
    binding.valid && 1 ≤ exits.length && exits.length ≤ maxDispatches && exits.all ExitLink.valid

/-- `_payload`. -/
def ProcessEvent.valid (event : ProcessEvent) : Bool :=
  event.wellFormed && event.bytes ≤ event.maxBytes

/-! ### Chains -/

/-- The intents of a run, and the exits under the intents they belong to, oldest first. -/
structure ProcessChains where
  intents : List (ℕ × ProcessDispatch) := []
  terminals : List (ℕ × ℕ × ProcessDispatch × ProcessExit) := []
  deriving DecidableEq

namespace ProcessChains

variable (hash : ProcessEvent → Digest) (c : ProcessChains)

/-- `_link`, of an intent that has an exit. -/
def link (seq : ℕ) : Option ExitLink := do
  let dispatch ← c.intents.lookup seq
  let (exitSeq, common, exit) ← c.terminals.lookup seq
  return ⟨seq, hash (.dispatchIntent dispatch), exitSeq, hash (.exitObserved common exit)⟩

/-- One row of the scan in `_chains`. -/
def add (expected : WorkerRunBinding) (row : ProcessRow) : Checked ProcessChains := do
  require (row.event.valid ∧ 1 ≤ row.seq) (.value "process_invalid_record")
  require (row.event.binding = expected) (.value "process_binding_mismatch")
  match row.event with
  | .closureAcknowledged _ exits =>
    require (exits.all fun link => c.link hash link.intentSeq = some link)
      (.value "process_invalid_acknowledgement")
    require (exits.map ExitLink.intentSeq).Nodup (.value "process_invalid_acknowledgement")
    return c
  | .dispatchIntent dispatch =>
    require (c.intents.all fun intent =>
        intent.2.request.operationId ≠ dispatch.request.operationId ∧
          intent.2.handle ≠ dispatch.handle) (.value "process_duplicate_dispatch")
    require (c.intents.length < maxDispatches) (.value "process_capacity")
    return { c with intents := c.intents ++ [(row.seq, dispatch)] }
  | .exitObserved common exit =>
    let start ← ofOption (c.intents.lookup exit.intentSeq) (.value "process_invalid_exit_chain")
    require (c.terminals.lookup exit.intentSeq = none ∧
      exit.intentHash = hash (.dispatchIntent start) ∧ common = start)
      (.value "process_invalid_exit_chain")
    return { c with terminals := c.terminals ++ [(exit.intentSeq, row.seq, common, exit)] }

end ProcessChains

def rowsOf (runId : RunId) (rows : List ProcessRow) : List ProcessRow :=
  rows.filter (·.event.binding.runId = runId)

/-- `_chains`, where the ledger has this binding for the run. -/
def chains (hash : ProcessEvent → Digest) (rows : List ProcessRow) (runId : RunId)
    (expected actual : Option WorkerRunBinding) : Checked ProcessChains := do
  let rows := rowsOf runId rows
  require (rows.length ≤ maxRunRows) (.value "process_capacity")
  if rows = [] then
    return {}
  let binding ← ofOption expected (.value "process_invalid_record")
  require binding.valid (.value "process_invalid_record")
  require (actual = some binding) (.value "process_binding_mismatch")
  rows.foldlM (fun c row => c.add hash binding row) {}

def nextSeq (rows : List ProcessRow) : ℕ := (rows.map ProcessRow.seq).foldr max 0 + 1

/-- `_insert`, with its readback. -/
def insertProcessRow (rows : List ProcessRow) (event : ProcessEvent) : Checked (List ProcessRow) :=
  do
  require event.valid (.value "process_invalid_record")
  return rows ++ [⟨nextSeq rows, event⟩]

end OrchKit.Bridge
