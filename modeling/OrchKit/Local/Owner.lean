import OrchKit.Bridge.Processes
import OrchKit.Data.Table
import OrchKit.Local.Operations

/-! # The owner of a context's processes

An owner starts children, reports on them and stops them, and keeps every reply under the
identifier of its operation. A thread supervises each child; between two looks of a call at a
child its supervisor may have gone on. What the operating system, the ledger and the authority
answer is given with each call.
-/

namespace OrchKit.Local

open Bridge

abbrev Reply : Type := WorkerOperationOutcome ProcessBody

def maxCache : ℕ := 64

def readBytes : ℕ := 8192

/-- `OwnedProcessProfile`, as far as a child depends on it. -/
structure Profile where
  profileId : String
  profileHash : Digest
  maxOutputBytes : ℕ
  bounded : 1 ≤ maxOutputBytes ∧ maxOutputBytes ≤ workerMaxOutputBytes

/-- `_OwnedChild`, with what its supervisor has seen of it. -/
structure OwnedChild extends Child where
  profile : Profile
  intentSeq : ℕ
  intent : ProcessDispatch
  stopReason : Option String := none
  recordAttempted : Bool := false
  terminateReserved : Bool := true
  terminalReserved : Bool := true
  signaled : Bool := false
  eof : Bool := false

/-- What a supervisor does while it holds the lock of its child: it finds the process running,
perhaps past its deadline, or finds it reaped, reads from the pipe, or loses what would prove the
exit. -/
inductive Supervision
  | running (late : Bool)
  | reaped (code : ℤ)
  | read (bytes : Bytes)
  | lost

namespace OwnedChild

def spawned (profile : Profile) (intentSeq : ℕ) (intent : ProcessDispatch) : OwnedChild :=
  { settled := false, recorded := false, isUnknown := false, exitCode := none, reason := none
    output := [], total := 0, profile, intentSeq, intent }

variable (child : OwnedChild)

def reservations : ℕ := child.terminateReserved.toNat + child.terminalReserved.toNat

def exited : Bool := child.settled && child.recorded

def stop (reason : String) : OwnedChild :=
  if ¬ child.settled ∧ child.stopReason = none then { child with stopReason := some reason }
  else child

/-- A child that is to be stopped is signaled once, and that is the reason of its exit. -/
def signal : OwnedChild :=
  if child.stopReason.isSome ∧ ¬ child.signaled then
    { child with reason := child.stopReason, signaled := true }
  else child

/-- `_supervise`, one hold of the lock at a time; its loop ends when the child is settled or
unknown. -/
def supervise : Supervision → OwnedChild
  | .lost => { child with isUnknown := true }
  | .running late =>
    if child.settled ∨ child.isUnknown ∨ child.exitCode.isSome then child
    else (if late then child.stop "deadline" else child).signal
  | .reaped code =>
    if child.settled ∨ child.isUnknown then child
    else { child with
      exitCode := some (child.exitCode.getD code)
      reason := child.reason.or (some "exited")
      settled := child.eof }
  | .read bytes =>
    let chunk := bytes.take readBytes
    if child.settled ∨ child.isUnknown ∨ child.eof then child
    else if chunk = [] then { child with eof := true }
    else { child with
      total := child.total + chunk.length
      output := child.output ++ chunk.take (child.profile.maxOutputBytes - child.output.length) }

def superviseAll (steps : List Supervision) : OwnedChild := steps.foldl supervise child

/-- The exit of a child, as it is to be recorded. -/
def exit? (hash : ProcessEvent → Digest) : Option ProcessExit := do
  let code ← child.exitCode
  let reason ← [ExitReason.exited, .terminated, .deadline, .ownerCleanup].find? fun reason =>
    child.reason = some reason.text
  return ⟨child.intentSeq, hash (.dispatchIntent child.intent), code, reason, child.total,
    child.output.length < child.total⟩

/-- `_record_exit`: the one attempt, which succeeds if the exit is valid and the ledger takes it. -/
def recordExit (hash : ProcessEvent → Digest) (stored : Bool) : OwnedChild :=
  if ¬ child.settled ∨ child.isUnknown ∨ child.recordAttempted then child
  else if (child.exit? hash).any
    (fun exit => ProcessEvent.valid (.exitObserved child.intent exit)) ∧
      stored then
    { child with recordAttempted := true, recorded := true }
  else { child with recordAttempted := true, isUnknown := true }

end OwnedChild

/-- What the ledger does with an intent to dispatch: it may be stored although that fails. -/
inductive Dispatched
  | stored (seq : ℕ)
  | capacity
  | failed (seq : Option ℕ)

/-- What the outside answers during a call, in the order it is asked: the lock and the authority;
the profile, the ledger, the handle that is drawn, the intent, the authority again, the process and
the thread of a start; and what the supervisor of the child does before each look at it. -/
structure Served where
  locked : Bool := true
  live : Bool := true
  unchanged : Bool := true
  readable : Bool := true
  handle : String := ""
  dispatched : Dispatched := .failed none
  stillLive : Bool := true
  spawned : Bool := true
  supervised : Bool := true
  first : List Supervision := []
  second : List Supervision := []
  stored : Bool := true
  third : List Supervision := []

inductive Call
  | start
  | poll (cursor : ℤ)
  | terminate
  deriving DecidableEq

def Call.kind : Call → WorkerOperationKind
  | start => .processStart
  | poll _ => .processPoll
  | terminate => .processTerminate

def Call.cursor : Call → ℤ
  | poll cursor => cursor
  | start | terminate => 0

/-- A reply with the request it answers. -/
structure Cached where
  request : WorkerOperationRequest
  cursor : ℤ
  outcome : Reply

/-- `LocalOwnedProcessOperations`, with the intents that the ledger has for its run. -/
structure Owner where
  binding : WorkerRunBinding
  sessionHash : Digest
  profiles : List Profile
  intents : List (ℕ × ProcessDispatch) := []
  children : Table String OwnedChild := ∅
  outcomes : Table String Cached := ∅

namespace Owner

variable (hash : ProcessEvent → Digest) (owner : Owner) (request : WorkerOperationRequest)
  (a : Served)

/-- `_occupied`. -/
def occupied : ℕ :=
  owner.outcomes.rows.length + (owner.children.rows.map OwnedChild.reservations).sum

/-- `_cache`. -/
def cache (cursor : ℤ) (outcome : Reply) : Owner :=
  { owner with outcomes := owner.outcomes.put request.operationId ⟨request, cursor, outcome⟩ }

def modifyChild (handle : String) (f : OwnedChild → OwnedChild) : Owner :=
  { owner with children := owner.children.modify handle f }

def addChild (handle : String) (child : OwnedChild) : Owner :=
  { owner with children := owner.children.put handle child }

/-- `_cleanup_requests`. -/
def cleanupRequests : Owner :=
  { owner with
    children := owner.children.filterMap fun _ child => some (child.stop "owner_cleanup") }

/-- A reply on a child, where `none` is an exception. -/
def envelope? (handle : String) (child : OwnedChild) (cursor : ℕ) : Option Reply :=
  (envelope request handle child.toChild cursor).toOption

/-- The ledger has no two intents with one identifier or one handle. -/
def isNew (handle : String) : Bool :=
  owner.intents.all fun old =>
    old.2.request.operationId ≠ request.operationId ∧ old.2.handle ≠ handle

def intend (seq : ℕ) (intent : ProcessDispatch) : Owner :=
  { owner with intents := owner.intents ++ [(seq, intent)] }

/-- The end of `_start`, once the intent is stored. -/
def spawn (profile : Profile) (seq : ℕ) (intent : ProcessDispatch) : Owner × Option Reply :=
  if ¬ a.stillLive then
    (owner.cleanupRequests, some (.unknown "process_spawn_authority_unconfirmed"))
  else if ¬ a.spawned then (owner, some (.unknown "process_spawn_unconfirmed"))
  else
    let child := OwnedChild.spawned profile seq intent
    if ¬ a.supervised then
      (owner.addChild a.handle { child with isUnknown := true },
        some (.unknown "process_supervisor_unavailable"))
    else
      let child := child.superviseAll a.first
      (owner.addChild a.handle child, envelope? request a.handle child 0)

/-- `_start`; the ledger refuses an intent that is not new. -/
def start : Owner × Option Reply :=
  match owner.profiles.find? fun profile => profile.profileId = request.target with
  | none => (owner, some (.refused "process_profile_denied"))
  | some profile =>
    if ¬ (a.unchanged ∧ a.readable) then (owner, none)
    else match owner.intents.find? fun old => old.2.request.operationId = request.operationId with
    | some old =>
      if old.2.request ≠ request ∨ old.2.sessionHash ≠ owner.sessionHash ∨
          old.2.profileHash ≠ profile.profileHash then
        (owner, some (.refused "process_operation_conflict"))
      else (owner, some (.unknown "process_dispatch_already_recorded"))
    | none =>
      if ¬ minimumFits request a.handle then (owner, some (.refused "process_envelope_too_small"))
      else
        let intent : ProcessDispatch := ⟨request, owner.sessionHash, profile.profileHash, a.handle⟩
        match a.dispatched with
        | .capacity => (owner, some (.refused "process_dispatch_capacity"))
        | .failed seq => (if owner.isNew request a.handle then
            seq.elim owner fun seq => owner.intend seq intent else owner,
            some (.unknown "process_dispatch_unconfirmed"))
        | .stored seq =>
          if owner.isNew request a.handle then
            (owner.intend seq intent).spawn request a profile seq intent
          else (owner, some (.unknown "process_dispatch_unconfirmed"))

/-- `_observe` of a child that is owned: what becomes of the child, and the reply. -/
def observe (child : OwnedChild) (cursor : ℕ) (terminate reservedOnly : Bool) :
    OwnedChild × Option Reply :=
  if ¬ minimumFits request request.target then
    (child, some (.refused "process_envelope_too_small"))
  else
    let child := child.superviseAll a.first
    if child.output.length < cursor then (child, some (.refused "process_cursor_denied"))
    else
      let child := ((child.superviseAll a.second).recordExit hash a.stored).superviseAll a.third
      if reservedOnly ∧ (child.isUnknown ∨ (¬ terminate ∧ ¬ child.exited)) then
        (child, some (.refused "process_operation_capacity"))
      else
        let child := if terminate then child.stop "terminated" else child
        (child, envelope? request request.target child cursor)

/-- `_observe` of what is not owned. -/
def observeMissing : Option Reply :=
  if ¬ a.readable then none
  else match owner.intents.find? fun old => old.2.handle = request.target with
  | some old =>
    if old.2.sessionHash = owner.sessionHash then some (.unknown "process_owner_unavailable")
    else some (.refused "process_handle_denied")
  | none => some (.refused "process_handle_denied")

/-- A reply that is a success spends the reservation that is kept for it. -/
def release (terminate : Bool) (child : OwnedChild) : Reply → OwnedChild
  | .succeeded body =>
    if terminate then { child with terminateReserved := false }
    else if body.exited then { child with terminalReserved := false }
    else child
  | _ => child

/-- What `_operate` does about a poll or a stop, for which it has no reply yet. -/
def report (cursor : ℤ) (terminate : Bool) : Owner × Reply :=
  let ordinary : Bool := owner.occupied < maxCache
  match owner.children.lookup request.target with
  | none =>
    if ¬ ordinary then (owner, .refused "process_operation_capacity")
    else match owner.observeMissing request a with
    | none => (owner, .refused "process_runtime_denied")
    | some outcome => (owner.cache request cursor outcome, outcome)
  | some child =>
    let reserved := if terminate then child.terminateReserved else child.terminalReserved
    if ¬ ordinary ∧ ¬ reserved then (owner, .refused "process_operation_capacity")
    else
      let (child, outcome) := observe hash request a child cursor.toNat terminate (!ordinary)
      match outcome with
      | none => (owner.modifyChild request.target fun _ => child, .refused "process_runtime_denied")
      | some outcome =>
        let owner := owner.modifyChild request.target fun _ => release terminate child outcome
        if outcome.state = "SUCCEEDED" ∨ ordinary then (owner.cache request cursor outcome, outcome)
        else (owner, outcome)

/-- `_operate`. -/
def operate (call : Call) : Owner × Reply :=
  if request.kind ≠ call.kind ∨ call.cursor < 0 then (owner, .refused "process_request_denied")
  else if owner.binding ≠ request.binding then (owner, .refused "process_scope_mismatch")
  else if ¬ a.locked then (owner, .refused "process_runtime_denied")
  else if ¬ a.live then (owner.cleanupRequests, .refused "process_authority_denied")
  else match owner.outcomes.lookup request.operationId with
  | some cached =>
    if cached.request ≠ request ∨ cached.cursor ≠ call.cursor then
      (owner, .refused "process_operation_conflict")
    else (owner, cached.outcome)
  | none => match call with
    | .start =>
      if maxCache < owner.occupied + 3 then (owner, .refused "process_operation_capacity")
      else match owner.start request a with
      | (owner, none) => (owner, .refused "process_runtime_denied")
      | (owner, some outcome) => (owner.cache request 0 outcome, outcome)
    | .poll cursor => owner.report hash request a cursor false
    | .terminate => owner.report hash request a 0 true

/-- What happens to an owner: a call, something that a supervisor does, the record it makes of an
exit at its end, or an intent that another owner of the run stores. -/
inductive Event
  | called (call : Call) (request : WorkerOperationRequest) (a : Served)
  | supervised (handle : String) (s : Supervision)
  | recorded (handle : String) (stored : Bool)
  | intended (seq : ℕ) (intent : ProcessDispatch)

def step : Event → Owner
  | .called call request a => (owner.operate hash request a call).1
  | .supervised handle s => owner.modifyChild handle fun child => child.supervise s
  | .recorded handle stored => owner.modifyChild handle fun child => child.recordExit hash stored
  | .intended seq intent => owner.intend seq intent

def run (events : List Event) : Owner := events.foldl (step hash) owner

def opened (binding : WorkerRunBinding) (sessionHash : Digest) (profiles : List Profile)
    (intents : List (ℕ × ProcessDispatch)) : Owner :=
  { binding, sessionHash, profiles, intents }

end Owner

end OrchKit.Local
