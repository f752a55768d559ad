import Karst.Foundations.Collections
import Karst.Relay.Handshake
import Karst.Relay.Limits

/-!
# The forwarding core

The hub of `karst-relay/src/hub.rs`: the registry of connections, the presence table and the write
queues.  Frames go in, and encoded frames wait in the queue of the connection they are for.  The
credit gate and the usage mappings it is asked about are parameters.  The hub's maps are hash maps:
where one is iterated, the order is an argument.
-/

namespace Karst.Relay

abbrev ConnId := ℕ

/-- Evidence of a delivery, once the frame is written. -/
structure DeliveryUsage (M : Type) where
  mapping : Option M
  payloadBytes : ℕ
  deriving DecidableEq

structure Outbound (M : Type) where
  bytes : Bytes
  delivery : Option (DeliveryUsage M)
  deriving DecidableEq

inductive Dropped where
  | rateLimited
  | aquiferRateLimited
  | notAdmitted
  | notHere
  | selfAddressed
  | queueFull
  | spendingCapLimited

inductive HubError where
  | illegalForRole
  | unknownConn

/-- How the hub is configured; a queue depth of zero is refused when the configuration is read. -/
structure Config where
  clientBudget : Budget
  meshBudget : Budget
  aquiferBudget : Option Budget
  queueDepth : ℕ
  queueDepth_pos : 0 < queueDepth

structure Conn (M : Type) where
  peer : Admitted
  queue : List (Outbound M)
  meter : Meter
  closeAfterFlush : Option Reason

structure Hub (M G : Type) where
  cfg : Config
  conns : AList fun _ : ConnId => Conn M
  byNode : AList fun _ : Id => ConnId
  byMesh : AList fun _ : Id => ConnId
  /-- Which meshed relay holds a node that is not connected here. -/
  presence : AList fun _ : Id => Id
  aquiferMeters : AList fun _ : AquiferId => Meter
  creditGate : Option G

def valuesIn {κ β : Type} (order : Arrangement β) (t : AList fun _ : κ => β) : List β :=
  order.arrange (t.entries.map Sigma.snd)

def keysIn {κ β : Type} (order : Arrangement κ) (t : AList fun _ : κ => β) : List κ :=
  order.arrange t.keys

namespace Hub

variable {M G : Type}

def new (cfg : Config) : Hub M G := ⟨cfg, ∅, ∅, ∅, ∅, ∅, none⟩

def modify (h : Hub M G) (id : ConnId) (f : Conn M → Conn M) : Hub M G :=
  match h.conns.lookup id with
  | none => h
  | some conn => { h with conns := h.conns.insert id (f conn) }

/-! ### Queues -/

/-- The loop that drops the oldest frames until there is room for one. -/
def makeRoom (depth : ℕ) (queue : List (Outbound M)) : List (Outbound M) :=
  queue.drop (queue.length + 1 - depth)

/-- A packet queued towards a client is a delivery. -/
def deliveryOf (frame : Frame) (peer : Admitted) (mapping : Option M) : Option (DeliveryUsage M) :=
  match frame with
  | .recvPacket _ payload => if peer.nodeId.isSome then some ⟨mapping, payload.length⟩ else none
  | _ => none

/-- Queue a frame, dropping the oldest on overflow; whether nothing was displaced. -/
def enqueueAttributed (h : Hub M G) (dst : ConnId) (frame : Frame) (mapping : Option M) :
    Hub M G × Bool :=
  match h.conns.lookup dst with
  | none => (h, false)
  | some conn =>
    (h.modify dst fun conn => { conn with
      queue := makeRoom h.cfg.queueDepth conn.queue ++ [⟨frame.toVec, deliveryOf frame conn.peer mapping⟩] },
      decide (conn.queue.length < h.cfg.queueDepth))

def enqueue (h : Hub M G) (dst : ConnId) (frame : Frame) : Hub M G :=
  (h.enqueueAttributed dst frame none).1

/-- Queue at the head, past whatever is waiting. -/
def enqueuePriority (h : Hub M G) (dst : ConnId) (frame : Frame) : Hub M G :=
  h.modify dst fun conn => { conn with
    queue := ⟨frame.toVec, none⟩ :: makeRoom h.cfg.queueDepth conn.queue }

def reply (h : Hub M G) (dst : ConnId) (frame : Frame) : Hub M G := h.enqueue dst frame

def gossip (h : Hub M G) (order : Arrangement ConnId) (frame : Frame) : Hub M G :=
  (valuesIn order h.byMesh).foldl (fun h peer => h.enqueue peer frame) h

/-! ### Connections -/

/-- Register a connection whose handshake has completed; the one it replaced. -/
def admitConn (h : Hub M G) (meshOrder : Arrangement ConnId) (nodeOrder : Arrangement Id) (id : ConnId)
    (peer : Admitted) (nowMs : ℕ) : Hub M G × Option ConnId :=
  match peer with
  | .client nodeId _ =>
    let prev := h.byNode.lookup nodeId
    let h := { h with
      byNode := h.byNode.insert nodeId id
      conns := h.conns.insert id ⟨peer, [], .new h.cfg.clientBudget nowMs, none⟩ }
    -- a replacement is not an arrival
    let h := if prev.isNone then h.gossip meshOrder (.peerPresent nodeId) else h
    (h, prev.filter fun prev => prev != id)
  | .mesh relayId =>
    let prev := h.byMesh.lookup relayId
    let h := { h with
      byMesh := h.byMesh.insert relayId id
      conns := h.conns.insert id ⟨peer, [], .new h.cfg.meshBudget nowMs, none⟩ }
    let h := (keysIn nodeOrder h.byNode).foldl (fun h n => h.enqueue id (.peerPresent n)) h
    (h, prev.filter fun prev => prev != id)

/-- Ask to shut a connection down once its queue has drained. -/
def beginClose (h : Hub M G) (id : ConnId) (reason : Option Reason) : Hub M G :=
  h.modify id fun conn => { conn with
    queue := conn.queue ++ (reason.toList.map fun r => ⟨(Frame.close r).toVec, none⟩)
    closeAfterFlush := some (reason.getD .disconnected) }

/-- Tell every connected client that the relay is going away. -/
def beginRestart (h : Hub M G) (order : Arrangement ConnId) (reconnectInMs tryForMs : UInt32) :
    Hub M G :=
  (valuesIn order h.byNode).foldl (fun h id =>
    (h.enqueuePriority id (.restarting reconnectInMs tryForMs)).beginClose id none) h

/-- Forget a connection, and the entries that are its own; the client that was released. -/
def disconnect (h : Hub M G) (order : Arrangement ConnId) (id : ConnId) : Hub M G × Option Id :=
  match h.conns.lookup id with
  | none => (h, none)
  | some conn =>
    let h := { h with conns := h.conns.erase id }
    match conn.peer with
    | .client nodeId _ =>
      -- a replaced connection must not retract the mapping of its successor
      if h.byNode.lookup nodeId = some id then
        let h := { h with byNode := h.byNode.erase nodeId }
        (h.gossip order (.peerGone nodeId .disconnected), some nodeId)
      else (h, none)
    | .mesh relayId =>
      if h.byMesh.lookup relayId = some id then
        ({ h with
          byMesh := h.byMesh.erase relayId
          presence := retain (fun owner => owner != relayId) h.presence }, none)
      else (h, none)

def takeOutbound (h : Hub M G) (id : ConnId) : Hub M G × Option (Outbound M) :=
  (h.modify id fun conn => { conn with queue := conn.queue.tail },
    (h.conns.lookup id).bind fun conn => conn.queue.head?)

/-! ### Forwarding -/

/-- `CreditGate::reserve`: the gate afterwards, and whether the bytes are covered. -/
abbrev Reserve (M G : Type) := G → M → ℕ → G × Bool

section

variable (reserve : Reserve M G)

/-- Charge an aquifer's aggregate meter, created on first use. -/
def chargeAquifer (h : Hub M G) (aquifer : AquiferId) (bytes nowMs : ℕ) : Hub M G × Bool :=
  match h.cfg.aquiferBudget with
  | none => (h, true)
  | some budget =>
    let meter := (h.aquiferMeters.lookup aquifer).getD (.new budget nowMs)
    ({ h with aquiferMeters := h.aquiferMeters.insert aquifer (meter.admitFrame bytes nowMs).1 },
      (meter.admitFrame bytes nowMs).2)

def targetsClient (h : Hub M G) (dst : ConnId) : Bool :=
  (h.conns.lookup dst).any fun conn => conn.peer.nodeId.isSome

def passGate (h : Hub M G) (dst : ConnId) (frame : Frame) (mapping : Option M) : Hub M G × Bool :=
  match h.creditGate, mapping, frame with
  | some gate, some mapping, .recvPacket _ payload =>
    if h.targetsClient dst then
      ({ h with creditGate := some (reserve gate mapping payload.length).1 },
        (reserve gate mapping payload.length).2)
    else (h, true)
  | _, _, _ => (h, true)

def deliverAttributed (h : Hub M G) (dst : ConnId) (frame : Frame) (mapping : Option M) :
    Hub M G × Option Dropped :=
  let (h, covered) := h.passGate reserve dst frame mapping
  if covered then
    let (h, clean) := h.enqueueAttributed dst frame mapping
    (h, if clean then none else some .queueFull)
  else (h, some .spendingCapLimited)

def deliver (h : Hub M G) (dst : ConnId) (frame : Frame) : Hub M G × Option Dropped :=
  h.deliverAttributed reserve dst frame none

def viaMesh (h : Hub M G) (dstId : Id) : Option ConnId :=
  (h.presence.lookup dstId).bind fun relay => h.byMesh.lookup relay

/-- A packet from a client: the relay stamps the authenticated id as its source. -/
def forwardFromClient (h : Hub M G) (source : ConnId) (dstId : Id) (payload : Bytes)
    (roster : Roster) (nowMs : ℕ) (mapping : Option M) : Hub M G × Option Dropped :=
  match (h.conns.lookup source).map Conn.peer with
  | some (.client srcId srcAquifer) =>
    if dstId = srcId then (h, some .selfAddressed)
    else if ((roster.client dstId).any fun e => e.aquifer == srcAquifer) = false then
      (h.reply source (.peerGone dstId .notAdmitted), some .notAdmitted)
    else
      let (h, charged) := h.chargeAquifer srcAquifer payload.length nowMs
      if charged = false then (h, some .aquiferRateLimited)
      else match h.byNode.lookup dstId with
        | some dst => h.deliverAttributed reserve dst (.recvPacket srcId payload) mapping
        | none =>
          match h.viaMesh dstId with
          | some dst => h.deliver reserve dst (.forward srcId dstId payload)
          | none => (h.reply source (.peerGone dstId .notHere), some .notHere)
  | _ => (h, none)

def sharedAquifer (roster : Roster) (srcId dstId : Id) : Option AquiferId :=
  (roster.client srcId).bind fun s => (roster.client dstId).bind fun d =>
    if s.aquifer = d.aquifer then some d.aquifer else none

/-- A packet from a meshed relay: it is delivered here or not at all. -/
def deliverFromMesh (h : Hub M G) (source : ConnId) (srcId dstId : Id) (payload : Bytes)
    (roster : Roster) (nowMs : ℕ) (mapping : Option M) : Hub M G × Option Dropped :=
  match h.byNode.lookup dstId with
  | none => (h.reply source (.peerGone dstId .disconnected), some .notHere)
  | some dst =>
    match sharedAquifer roster srcId dstId with
    | none => (h, some .notAdmitted)
    | some dstAquifer =>
      let (h, charged) := h.chargeAquifer dstAquifer payload.length nowMs
      if charged = false then (h, some .aquiferRateLimited)
      else h.deliverAttributed reserve dst (.recvPacket srcId payload) mapping

def handle (h : Hub M G) (id : ConnId) (peer : Admitted) (frame : Frame) (roster : Roster)
    (nowMs : ℕ) (mapping : Option M) : Hub M G × Except HubError (Option Dropped) :=
  match frame, peer with
  | .ping token, _ => (h.enqueuePriority id (.pong token), .ok none)
  | .pong _, _ => (h, .ok none)
  | .close _, _ => (h.beginClose id none, .ok none)
  | .sendPacket dstId payload, .client _ _ =>
    let r := h.forwardFromClient reserve id dstId payload roster nowMs mapping
    (r.1, .ok r.2)
  | .forward srcId dstId payload, .mesh _ =>
    let r := h.deliverFromMesh reserve id srcId dstId payload roster nowMs mapping
    (r.1, .ok r.2)
  | .peerPresent nodeId, .mesh relayId =>
    ({ h with presence := h.presence.insert nodeId relayId }, .ok none)
  -- only the relay that claimed a node may retract it
  | .peerGone peerId _, .mesh relayId =>
    (if h.presence.lookup peerId = some relayId then
      { h with presence := h.presence.erase peerId } else h, .ok none)
  | _, _ => (h, .error .illegalForRole)

/-- Handle one inbound frame; every frame is charged first. -/
def onFrame (h : Hub M G) (id : ConnId) (frame : Frame) (roster : Roster) (nowMs : ℕ)
    (mapping : Option M) : Hub M G × Except HubError (Option Dropped) :=
  match h.conns.lookup id with
  | none => (h, .error .unknownConn)
  | some conn =>
    match conn.meter.admitFrame frame.encodedLen nowMs with
    | (_, false) => (h, .ok (some .rateLimited))
    | (meter, true) =>
      (h.modify id fun conn => { conn with meter := meter }).handle reserve id conn.peer frame
        roster nowMs mapping

end

/-! ### Runs -/

inductive Op (M G : Type) where
  | setCreditGate (gate : Option G)
  | admitConn (meshOrder : Arrangement ConnId) (nodeOrder : Arrangement Id) (id : ConnId)
      (peer : Admitted) (nowMs : ℕ)
  | onFrame (id : ConnId) (frame : Frame) (roster : Roster) (nowMs : ℕ) (mapping : Option M)
  | beginClose (id : ConnId) (reason : Option Reason)
  | beginRestart (order : Arrangement ConnId) (reconnectInMs tryForMs : UInt32)
  | disconnect (order : Arrangement ConnId) (id : ConnId)
  | takeOutbound (id : ConnId)

def step (reserve : Reserve M G) (h : Hub M G) : Op M G → Hub M G
  | .setCreditGate gate => { h with creditGate := gate }
  | .admitConn meshOrder nodeOrder id peer nowMs => (h.admitConn meshOrder nodeOrder id peer nowMs).1
  | .onFrame id frame roster nowMs mapping => (h.onFrame reserve id frame roster nowMs mapping).1
  | .beginClose id reason => h.beginClose id reason
  | .beginRestart order reconnectInMs tryForMs => h.beginRestart order reconnectInMs tryForMs
  | .disconnect order id => (h.disconnect order id).1
  | .takeOutbound id => (h.takeOutbound id).1

def run (reserve : Reserve M G) (cfg : Config) (ops : List (Op M G)) : Hub M G :=
  Runs.run (step reserve) (new cfg) ops

end Hub

end Karst.Relay
