import OrchKit.Data.Table
import OrchKit.Local.Responses

/-! # The transport of the local service

A single thread serves up to three connections. It reads a frame piece by piece, makes a response
for it, and sends that piece by piece before it reads on. The answers of the sockets, the clock
and the authority are given with what happens; what the service does that others can see is kept
in order.
-/

namespace OrchKit.Local

open Bridge Json

def ioChunk : ℕ := 16 * 1024

def maxPeers : ℕ := 3

def acceptBudget : ℕ := 3

/-- A connected peer; its output is the frame of a response, if it has one. -/
structure Peer (limits : LocalServiceLimits) where
  deadline : ℚ
  route : Option ℕ := none
  header : Bytes := []
  body : Bytes := []
  size : Option ℕ := none
  output : Option Value := none
  sent : ℕ := 0
  success : Bool := false
  closeAfter : Bool := false
  request : Option (Asked limits) := none
  budget : Option ℕ := none

/-- What can be seen of a service: the looks at the authority for the response of a peer, where
whatever is raised while the response is made counts as one that failed; the routes that are
retired; and the pieces of responses that are sent, with the route of the peer. -/
inductive Output
  | checked (c : ℕ) (passed : Bool)
  | retired (r : ℕ)
  | sent (c : ℕ) (route : Option ℕ) (response : Value) (piece : Bytes)

/-- The routes, and the peers by their connections, which are numbered as they are accepted. -/
structure Transport (limits : LocalServiceLimits) where
  routes : List Route
  peers : Table ℕ (Peer limits) := ∅
  accepted : ℕ := 0
  running : Bool := true
  outputs : List Output := []

/-! ### What is answered -/

structure Queueing where
  now : ℚ
  modified : Bool := true

structure Dispatching where
  now : ℚ
  first : Bool := true
  native : Native := {}
  second : Bool := true
  queueing : Queueing

inductive Received
  | data (piece : Bytes)
  | again
  | failed

structure Reading where
  received : Received
  dispatching : Dispatching

inductive Sent
  | bytes (n : ℕ)
  | again
  | failed

structure Writing where
  authority : Bool := true
  queueing : Queueing
  now : ℚ
  sent : Sent
  reset : Queueing

/-- Whether a new connection can be set up. -/
inductive Setup
  | ready
  | again
  | failed

inductive Offer
  | none
  | failed
  | connection (now : ℚ) (setup : Setup)

/-- What happens to a service: a turn of its loop, a listener or a connection that is ready, or
the end. -/
inductive Input
  | turn (now : ℚ) (idle : Bool)
  | accept (offers : List Offer)
  | ready (c : ℕ) (now : ℚ) (writable readable : Bool) (reading : Reading) (writing : Writing)
  | stop

def succeeded (v : Value) : Bool := (v.get "state").bind Value.text? = some "SUCCEEDED"

namespace Transport

/-! ### Peers and routes -/

section Peers

variable {limits : LocalServiceLimits} (t : Transport limits)

def log (o : Output) : Transport limits := { t with outputs := t.outputs ++ [o] }

def modifyPeer (c : ℕ) (f : Peer limits → Peer limits) : Transport limits :=
  { t with peers := t.peers.modify c f }

/-- A route is free again if it is this connection that has it. -/
def free (c : ℕ) (route : Option ℕ) : List Route :=
  match route with
  | none => t.routes
  | some r => t.routes.modify r fun rt => if rt.peer = some c then { rt with peer := none } else rt

/-- `close_peer`. -/
def closePeer (c : ℕ) : Transport limits :=
  match t.peers.lookup c with
  | none => t
  | some p => { t with peers := t.peers.delete c, routes := t.free c p.route }

def closeWhere (which : Peer limits → Bool) : Transport limits :=
  (t.peers.entries.filter fun e => which e.2).foldl (fun t e => t.closePeer e.1) t

/-- The end of the service, which closes every connection. -/
def finish : Transport limits := { t.closeWhere fun _ => true with running := false }

/-- `retire`: a route stays retired. -/
def retire (r : ℕ) : Transport limits :=
  match t.routes[r]? with
  | none => t
  | some route =>
    if route.retired then t
    else { t with
      routes := t.routes.modify r fun route => { route with retired := true }
      outputs := t.outputs ++ [.retired r] }

end Peers

/-! ### Responses -/

variable {svc : Service} (t : Transport svc.limits) (c : ℕ)

def queue (v : Value) (budget : Option ℕ) (closeAfter preserveDeadline : Bool) (a : Queueing) :
    Transport svc.limits :=
  if min svc.limits.maxFrameBytes (budget.getD svc.limits.maxResponseBytes) <
      (encodePayload svc v).length then t.closePeer c
  else
    let t := t.modifyPeer c fun p => { p with
      output := some v
      sent := 0
      success := succeeded v
      closeAfter
      budget
      deadline := if preserveDeadline then p.deadline else a.now + svc.limits.ioTimeoutSec.value }
    if a.modified then t else t.closePeer c

/-- A process transport has a refusal of its own for a peer with a route. -/
def refusalFor (code : String) (request : Option (Asked svc.limits))
    (route : Option Route) : Value :=
  match svc.flavour, route with
  | .process, some route => processRefusal svc route code request
  | _, route => refusal svc code request route

def refuse (code : String) (request : Option (Asked svc.limits)) (budget : Option ℕ)
    (preserveDeadline : Bool) (a : Queueing) : Transport svc.limits :=
  match t.peers.lookup c with
  | none => t
  | some p => t.queue c (refusalFor code request (p.route.bind fun r => t.routes[r]?)) budget true
      preserveDeadline a

/-- `authority_denied`: nothing can follow a part of a response. -/
def authorityDenied (a : Queueing) : Transport svc.limits :=
  match t.peers.lookup c with
  | none => t
  | some p =>
    let t := match p.route with
      | none => t
      | some r => t.retire r
    if p.sent ≠ 0 then t.closePeer c
    else t.refuse c "local_bridge_authority_denied" p.request p.budget p.output.isSome a

/-- The authority is looked at before the response is made, and again once it is known to fit. -/
def respond (make : Checked Value) (limit budget : Option ℕ) (a : Dispatching) :
    Transport svc.limits :=
  let t := t.log (.checked c a.first)
  if ¬ a.first then t.authorityDenied c a.queueing
  else match make with
  | .error _ => (t.log (.checked c false)).authorityDenied c a.queueing
  | .ok v =>
    if limit.any fun n => n < (encodePayload svc v).length then t.closePeer c
    else
      let t := t.log (.checked c a.second)
      if ¬ a.second then t.authorityDenied c a.queueing
      else t.queue c v budget false false a.queueing

variable (svc) in
def helloResponse (hello : Hello) (route : Route) : Value :=
  object [("schema_version", nat 1), ("request_id", text hello.requestId),
    ("state", text "SUCCEEDED"), ("session_id", text route.sessionId),
    ("service_incarnation", text svc.incarnation)]

/-- A peer without a route has to name one that nobody else has. -/
def dispatchHello (fields : Fields) (a : Dispatching) : Transport svc.limits :=
  match validateHello fields with
  | none => t.refuse c "local_bridge_invalid_request" none none false a.queueing
  | some hello =>
    match t.routes.findIdx? fun route => !route.retired && route.token = hello.transportToken with
    | none => t.refuse c "local_bridge_auth_denied" (some (.hello hello)) none false a.queueing
    | some r =>
      match t.routes[r]? with
      | none => t
      | some route =>
        if route.peer.isSome then t.closePeer c
        else
          let t := { t.modifyPeer c (fun p => { p with
              route := some r, request := some (.hello hello) })
            with routes := t.routes.modify r fun route => { route with peer := some c } }
          t.respond c (.ok (helloResponse svc hello route)) none none a

/-- The bytes an invalid request leaves for its refusal, if it says so. -/
def refusalBudget (limits : LocalServiceLimits) (fields : Fields) : Option ℕ :=
  ((field fields "max_response_bytes").bind Value.int?).bind fun i =>
    if 0 ≤ i ∧ i ≤ limits.maxResponseBytes then some i.toNat else none

def dispatchFile (route : Route) (fields : Fields) (a : Dispatching) : Transport svc.limits :=
  match validateRequest fields svc.limits with
  | none => t.refuse c "local_bridge_invalid_request" none (refusalBudget svc.limits fields) false
      a.queueing
  | some request =>
    let budget := request.maxResponseBytes
    let t := t.modifyPeer c fun p =>
      { p with request := some (.file request), budget := some budget }
    if request.sessionId ≠ route.sessionId then
      t.refuse c "local_bridge_session_denied" (some (.file request)) (some budget) false a.queueing
    else t.respond c (dispatchContext svc route request a.native)
      (some (min budget (min svc.limits.maxResponseBytes svc.limits.maxFrameBytes))) (some budget) a

def dispatchProcess (route : Route) (fields : Fields) (a : Dispatching) : Transport svc.limits :=
  match validateProcessRequest fields svc.limits with
  | none => t.refuse c "local_bridge_invalid_request" none (refusalBudget svc.limits fields) false
      a.queueing
  | some request =>
    let budget := request.maxResponseBytes
    let t := t.modifyPeer c fun p => { p with
      request := some (.process request), budget := some budget }
    if request.sessionId ≠ route.sessionId then
      t.refuse c "local_bridge_session_denied" (some (.process request)) (some budget) false
        a.queueing
    else t.respond c (Local.dispatchProcess svc route request a.native)
      (some (min budget svc.limits.maxFrameBytes)) (some budget) a

def dispatch (fields : Fields) (a : Dispatching) : Transport svc.limits :=
  match t.peers.lookup c with
  | none => t
  | some p =>
    if p.deadline ≤ a.now then t.closePeer c
    else match p.route with
    | none => t.dispatchHello c fields a
    | some r => match t.routes[r]? with
      | none => t
      | some route => match svc.flavour with
        | .readOnly => t.dispatchFile c route fields a
        | .process => t.dispatchProcess c route fields a

/-! ### Sockets -/

/-- `read`: never more than what is left of the header or of the body. -/
def read (a : Reading) : Transport svc.limits :=
  match t.peers.lookup c with
  | none => t
  | some p => match a.received with
    | .again => t
    | .failed => t.closePeer c
    | .data bytes => match p.size with
      | none =>
        let piece := bytes.take (min (4 - p.header.length) ioChunk)
        let header := p.header ++ piece
        if piece = [] then t.closePeer c
        else if header.length = 4 then
          let size := unpackSize header
          let t := t.modifyPeer c fun p => { p with header, size := some size }
          if 1 ≤ size ∧ size ≤ svc.limits.maxFrameBytes then t
          else t.refuse c "local_bridge_invalid_request" none none false a.dispatching.queueing
        else t.modifyPeer c fun p => { p with header }
      | some size =>
        let piece := bytes.take (min (size - p.body.length) ioChunk)
        let body := p.body ++ piece
        let t' := t.modifyPeer c fun p => { p with body }
        if piece = [] then t.closePeer c
        else if body.length = size then
          match decodePayload svc body with
          | none => t'.refuse c "local_bridge_invalid_request" none none false
              a.dispatching.queueing
          | some fields => t'.dispatch c fields a.dispatching
        else t'

/-- The send of a peer that may send. -/
def send (p : Peer svc.limits) (v : Value) (a : Writing) : Transport svc.limits :=
  match a.sent with
  | .again => t
  | .failed => t.closePeer c
  | .bytes n =>
    let piece := (((frame svc v).drop p.sent).take ioChunk).take n
    if piece = [] then t.closePeer c
    else
      let t := t.log (.sent c p.route v piece)
      if p.sent + piece.length = (frame svc v).length then
        if p.closeAfter then t.closePeer c
        else
          let t := t.modifyPeer c fun p => { p with
            output := none, sent := 0, header := [], body := [], size := none, request := none
            budget := none, deadline := a.reset.now + svc.limits.ioTimeoutSec.value }
          if a.reset.modified then t else t.finish
      else t.modifyPeer c fun p => { p with sent := p.sent + piece.length }

/-- `write`: the authority is looked at before each piece of a success. -/
def write (a : Writing) : Transport svc.limits :=
  match t.peers.lookup c with
  | none => t
  | some p => match p.output with
    | none => t
    | some v =>
      let t := if p.success then t.log (.checked c a.authority) else t
      if p.success ∧ ¬ a.authority then t.authorityDenied c a.queueing
      else if p.deadline ≤ a.now then t.closePeer c
      else t.send c p v a

/-- `accept`: an overflow of connections is closed at once. -/
def accept : Transport svc.limits → List Offer → Transport svc.limits
  | t, [] => t
  | t, .none :: _ => t
  | t, .failed :: _ => t.finish
  | t, .connection now setup :: offers =>
    if maxPeers ≤ t.peers.keys.length then
      accept { t with accepted := t.accepted + 1 } offers
    else
      let opened := { t with
        accepted := t.accepted + 1
        peers := t.peers.put t.accepted { deadline := now + svc.limits.ioTimeoutSec.value } }
      match setup with
      | .ready => accept opened offers
      | .again => opened
      | .failed => (opened.closePeer t.accepted).finish

/-! ### The loop -/

def turn (now : ℚ) (idle : Bool) : Transport svc.limits :=
  let t := t.closeWhere fun p => p.deadline ≤ now
  if t.routes.all Route.retired then
    let t := t.closeWhere fun p => p.route = none
    if t.peers.keys = [] then t.finish else t
  else if t.peers.keys = [] ∧ idle then t.finish
  else t

def ready (now : ℚ) (writable readable : Bool) (reading : Reading) (writing : Writing) :
    Transport svc.limits :=
  match t.peers.lookup c with
  | none => t
  | some p =>
    if p.deadline ≤ now then t.closePeer c
    else if p.output.isSome then if writable then t.write c writing else t
    else if readable then (t.read c reading).write c writing
    else t

def step (input : Input) : Transport svc.limits :=
  if ¬ t.running then t
  else match input with
  | .turn now idle => t.turn now idle
  | .accept offers => t.accept (offers.take acceptBudget)
  | .ready c now writable readable reading writing =>
    t.ready c now writable readable reading writing
  | .stop => t.finish

def run (inputs : List Input) : Transport svc.limits := inputs.foldl step t

end Transport

/-- A service that has published its credentials and has no connection yet. -/
def start {limits : LocalServiceLimits} (routes : List Route) : Transport limits :=
  { routes := routes.map fun route => { route with retired := false, peer := none } }

end OrchKit.Local
