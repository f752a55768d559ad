import Karst.Foundations.Programs
import Karst.Node.Session
import Karst.Datapath.Compliance
import Karst.Datapath.Flows
import Karst.Datapath.Routing

/-!
# The datapath engine

`karstd/src/engine.rs`.  Every method of `Engine` takes `&self` and locks what it needs as it goes, so
each is a program of atomic steps here: one per lock taken.  The roster is read once at the head of a
call and passed along; the helpers that read it again (`endpoint`, `peerAt`, `established`) do so here
too.  Peer slots are reference-counted and shared between rosters, as addresses into an arena.

The fields of the source's `Roster` that are computed from its configuration are definitions.  Counters,
the report of `reconfigure`, status and the file-transfer entry points of the user are left out; what
file transfer answers a peer's frame with is a parameter.  A datagram carries the peer whose session
made it, which the source does not record.
-/

namespace Karst.Datapath

open Net Crypto Noise Proto Node

/-! ### Configuration -/

structure SocketAddr where
  ip : IpAddr
  port : UInt16
  deriving DecidableEq

def sourceKey (addr : SocketAddr) : SourceKey :=
  let octets := match addr.ip with
    | .v4 a => List.replicate 10 0 ++ [0xFF, 0xFF] ++ beBytes 4 a.toNat
    | .v6 a => beBytes 16 a.toNat
  fit 18 (octets ++ beBytes 2 addr.port.toNat)

abbrev RelayId := Bytes

/-- No address begins with `0xFF`, so relayed streams are apart from direct ones. -/
def relaySourceKey (id : RelayId) : SourceKey := fit 18 (0xFF :: id.take 17)

section

variable (P : Primitives)

structure Peer where
  nodeId : Bytes
  handle : Bytes
  pub : PeerPublic P
  endpoint : Option SocketAddr
  /-- The peer's own addresses, without what it is a gateway for. -/
  identityAddresses : List Prefix
  pskPrevious : Option (Vector UInt8 32)
  homeRelay : Option RelayId

structure Config where
  keys : StaticKeys P
  addresses : List InterfaceAddress
  pskEpoch : UInt32
  relays : List RelayId
  gatewayForwarding : Bool
  peers : List (Peer P)
  routes : AllowedIps
  filter : PacketFilter
  sshFilter : SshFilter

end

section

variable {P : Primitives}

def Peer.hint (peer : Peer P) : Bytes := peerIdHint P (P.toBytes peer.pub.kemPk)

def Peer.relayId (peer : Peer P) : Option RelayId :=
  if validUtf8 peer.nodeId then handleBytes peer.nodeId else none

/-- The session index of a peer: not zero, and its own. -/
def localIndex (index : PeerIndex) : UInt32 :=
  if index < 2 ^ 32 then UInt32.ofNat index + 1 else 0

def Config.isLocal (config : Config P) (addr : IpAddr) : Bool :=
  config.addresses.any fun a => a.addr == addr

def peerPublicAtEpoch (peer : Peer P) (currentEpoch offeredEpoch : UInt32) :
    Option (PeerPublic P) :=
  if offeredEpoch = currentEpoch then some peer.pub
  else if currentEpoch ≠ 0 ∧ currentEpoch - 1 = offeredEpoch then
    peer.pskPrevious.map fun psk => { peer.pub with psk }
  else none

end

/-! ### State -/

/-- The file transfers of one peer as the datapath sees them: which frames they answer a frame of the
peer with, given whether policy permits an offer. -/
structure FileTransfers where
  State : Type
  new : State
  onFrame : Bool → Bytes → State → State × List Bytes

def FileTransfers.silent : FileTransfers := ⟨Unit, (), fun _ _ s => (s, [])⟩

variable (P : Primitives) (F : FileTransfers)

structure PeerSlot where
  session : Session P
  /-- The head last claimed to this peer. -/
  claimedHead : Bytes
  endpoint : Option SocketAddr
  flows : Flows
  sshAdmissions : SshAdmissions
  /-- When the node's own relay last said it could not reach the peer; zero if it has not. -/
  offHome : ℕ
  fileTransfers : F.State

structure Roster where
  config : Config P
  peers : List Ref

structure Engine where
  roster : Roster P
  slots : Arena (PeerSlot P F)
  /-- Head and sequence number of the verified log, if there is one. -/
  bedrock : Option (Bytes × ℕ)
  compliancePermit : Option Compliance.PermitSnapshot
  inMacKey : Bytes
  cookie : Option CookieSecret
  homeRelay : Option RelayId

/-- What a thread of the engine runs. -/
abbrev EngineM := Prog (Engine P F)

variable {P F}

def lastIdx {α : Type} (p : α → Bool) (l : List α) : Option ℕ :=
  (l.zipIdx.reverse.find? fun x => p x.1).map Prod.snd

namespace Roster

def byHint (r : Roster P) (hint : Bytes) : Option PeerIndex :=
  lastIdx (fun p => p.hint == hint) r.config.peers

def relayId (r : Roster P) (peer : PeerIndex) : Option RelayId :=
  (r.config.peers[peer]?).bind Peer.relayId

def byRelayId (r : Roster P) (id : RelayId) : Option PeerIndex :=
  lastIdx (fun p => p.relayId == some id) r.config.peers

/-- The peer's published home, if it is a relay the node could dial. -/
def homeRelay (r : Roster P) (peer : PeerIndex) : Option RelayId :=
  (r.config.peers[peer]?).bind fun p => p.homeRelay.filter fun id => id ∈ r.config.relays

def relayConfigured (r : Roster P) : Bool := !r.config.relays.isEmpty

def carried (r : Roster P) (hint : Bytes) : Option Ref := (r.byHint hint).bind fun i => r.peers[i]?

end Roster

def newSlot (config : Config P) (index : PeerIndex) (peer : Peer P) : PeerSlot P F where
  session := Session.new config.keys peer.pub config.pskEpoch (localIndex index)
  claimedHead := []
  endpoint := peer.endpoint
  flows := Flows.new
  sshAdmissions := SshAdmissions.new
  offHome := 0
  fileTransfers := F.new

/-- A slot for each peer from `index` on: the same peer as before keeps its own. -/
def buildSlots (config : Config P) (carried : Bytes → Option Ref) :
    List (Peer P) → PeerIndex → Arena (PeerSlot P F) → Arena (PeerSlot P F) × List Ref
  | [], _, slots => (slots, [])
  | peer :: rest, index, slots =>
    let (slots, slot) := match carried peer.hint with
      | some slot => (slots, slot)
      | none => (slots.alloc (newSlot config index peer), slots.next)
    let (slots, others) := buildSlots config carried rest (index + 1) slots
    (slots, slot :: others)

def buildRoster (config : Config P) (carried : Bytes → Option Ref) (slots : Arena (PeerSlot P F)) :
    Arena (PeerSlot P F) × Roster P :=
  let (slots, peers) := buildSlots config carried config.peers 0 slots
  (slots, ⟨config, peers⟩)

section

variable (config : Config P) (carried : Bytes → Option Ref)

theorem buildSlots_fresh (peers : List (Peer P)) (index : PeerIndex) (slots : Arena (PeerSlot P F)) :
    (buildSlots config (fun _ => none) peers index slots).2 = List.range' slots.next peers.length := by
  induction peers generalizing index slots with
  | nil => rfl
  | cons peer rest ih => simp [buildSlots, ih, List.range'_succ]

theorem buildSlots_cell (peers : List (Peer P)) (index : PeerIndex) (slots : Arena (PeerSlot P F))
    (r : Ref) : (buildSlots config carried peers index slots).1.cell r = slots.cell r
      ∨ ∃ i peer, (buildSlots config carried peers index slots).1.cell r = newSlot config i peer := by
  induction peers generalizing index slots with
  | nil => exact Or.inl rfl
  | cons peer rest ih =>
    cases hcarried : carried peer.hint with
    | some slot =>
      simp only [buildSlots, hcarried]
      exact ih (index + 1) slots
    | none =>
      simp only [buildSlots, hcarried]
      rcases ih (index + 1) (slots.alloc (newSlot config index peer)) with hsame | hnew
      · rw [hsame]
        by_cases hr : r = slots.next
        · subst hr
          exact Or.inr ⟨index, peer, Arena.alloc_cell_self ..⟩
        · exact Or.inl (Arena.alloc_cell_ne _ _ hr)
      · exact Or.inr hnew

end

/-- What fills an address before a slot is allocated there. -/
def unallocatedSlot (config : Config P) : PeerSlot P F where
  session := Session.new config.keys ⟨config.keys.kemPk, Vector.replicate 32 0⟩ 0 0
  claimedHead := []
  endpoint := none
  flows := Flows.new
  sshAdmissions := SshAdmissions.new
  offHome := 0
  fileTransfers := F.new

def Engine.new (config : Config P) : Engine P F :=
  let (slots, roster) := buildRoster config (fun _ => none) (Arena.empty (unallocatedSlot config))
  { roster, slots
    bedrock := none
    compliancePermit := none
    inMacKey := mac1Key P (P.toBytes config.keys.kemPk)
    cookie := none
    homeRelay := none }

theorem Engine.new_cell (config : Config P) (slot : Ref) :
    (Engine.new config : Engine P F).slots.cell slot = unallocatedSlot config
      ∨ ∃ i peer, (Engine.new config : Engine P F).slots.cell slot = newSlot config i peer :=
  buildSlots_cell config _ config.peers 0 _ slot

/-! ### Output -/

/-- How a datagram reaches its peer; no relay is the node's own. -/
inductive Via where
  | direct (addr : SocketAddr)
  | relay (relay : Option RelayId) (destination : RelayId)
  deriving DecidableEq

structure Datagram where
  /-- The peer whose session made it, if one did. -/
  peer : Option PeerIndex
  bytes : Bytes
  via : Via

structure Output where
  datagrams : List Datagram
  packets : List Bytes

namespace Output

def empty : Output := ⟨[], []⟩

instance : Append Output := ⟨fun a b => ⟨a.datagrams ++ b.datagrams, a.packets ++ b.packets⟩⟩

@[simp] theorem append_datagrams (a b : Output) : (a ++ b).datagrams = a.datagrams ++ b.datagrams :=
  rfl

@[simp] theorem append_packets (a b : Output) : (a ++ b).packets = a.packets ++ b.packets := rfl

end Output

/-- What a call reads besides its arguments: the compliance clock, the order of a hash map. -/
structure Ambient where
  elapsed : ℕ
  order : IterOrder Key

namespace Engine

/-! ### Locks -/

/-- The roster in force, read again in the middle of a call. -/
def readRoster : EngineM P F (Roster P) := .view true Engine.roster

def writeSlot (e : Engine P F) (slot : Ref) (s : PeerSlot P F) : Engine P F :=
  { e with slots := e.slots.write slot s }

def onSlot {β : Type} (slot : Ref) (f : PeerSlot P F → PeerSlot P F × β) : EngineM P F β :=
  .act fun e =>
    let (s, b) := f (e.slots.cell slot)
    (e.writeSlot slot s, b)

def readSlot {β : Type} (slot : Ref) (f : PeerSlot P F → β) : EngineM P F β :=
  .read fun e => f (e.slots.cell slot)

def onSession {β : Type} (slot : Ref) (f : Session P → Session P × β) : EngineM P F β :=
  onSlot slot fun s =>
    let (session, b) := f s.session
    ({ s with session }, b)

def sessionActions (roster : Roster P) (peer : PeerIndex)
    (f : Session P → Session P × List Action) : EngineM P F (List Action) :=
  match roster.peers[peer]? with
  | none => return []
  | some slot => onSession slot f

section

variable {β : Type} (slot : Ref) (e : Engine P F)

@[simp] theorem writeSlot_roster (s : PeerSlot P F) : (e.writeSlot slot s).roster = e.roster := rfl

@[simp] theorem writeSlot_self (s : PeerSlot P F) : (e.writeSlot slot s).slots.cell slot = s :=
  e.slots.write_cell_self slot s

variable {slot e} in
theorem writeSlot_ne {s : PeerSlot P F} {q : Ref} (h : q ≠ slot) :
    (e.writeSlot slot s).slots.cell q = e.slots.cell q := e.slots.write_cell_ne s h

theorem forall_writeSlot {Q : Ref → PeerSlot P F → Prop} (h : ∀ q, Q q (e.slots.cell q))
    {s : PeerSlot P F} (hs : Q slot s) (q : Ref) : Q q ((e.writeSlot slot s).slots.cell q) := by
  by_cases hq : q = slot
  · subst hq
    rwa [writeSlot_self]
  · rw [writeSlot_ne hq]
    exact h q

@[simp] theorem writeSlot_writeSlot (s s' : PeerSlot P F) :
    (e.writeSlot slot s).writeSlot slot s' = e.writeSlot slot s' := by
  simp [writeSlot]

@[simp] theorem run_readRoster : readRoster.run e = (e, e.roster) := rfl

@[simp] theorem run_onSlot (f : PeerSlot P F → PeerSlot P F × β) : (onSlot slot f).run e
      = (e.writeSlot slot (f (e.slots.cell slot)).1, (f (e.slots.cell slot)).2) := rfl

@[simp] theorem run_readSlot (f : PeerSlot P F → β) :
    (readSlot slot f).run e = (e, f (e.slots.cell slot)) := rfl

end

/-! ### Paths -/

def endpoint (peer : PeerIndex) : EngineM P F (Option SocketAddr) := do
  let roster ← readRoster
  match roster.peers[peer]? with
  | none => return none
  | some slot => readSlot slot PeerSlot.endpoint

def established (peer : PeerIndex) : EngineM P F Bool := do
  let roster ← readRoster
  match roster.peers[peer]? with
  | none => return false
  | some slot => readSlot slot fun s => s.session.established

def refused (roster : Roster P) (peer : PeerIndex) : EngineM P F Bool :=
  match roster.peers[peer]? with
  | none => return false
  | some slot => readSlot slot fun s => s.offHome != 0

def viaRelay (roster : Roster P) (peer : PeerIndex) : EngineM P F (Option Via) :=
  if roster.relayConfigured then
    match roster.relayId peer with
    | none => return none
    | some destination => do
      if ← refused roster peer then
        match roster.homeRelay peer with
        | some home =>
          let own ← .read Engine.homeRelay
          return some (.relay (if some home ≠ own then some home else none) destination)
        | none => return some (.relay none destination)
      else return some (.relay none destination)
  else return none

def via (roster : Roster P) (peer : PeerIndex) : EngineM P F (Option Via) := do
  match ← endpoint peer with
  | some addr => return some (.direct addr)
  | none => viaRelay roster peer

def findPeer (addr : SocketAddr) : List PeerIndex → EngineM P F (Option PeerIndex)
  | [] => return none
  | i :: rest => do
    if (← endpoint i) = some addr then return some i else findPeer addr rest

def peerAt (addr : SocketAddr) : EngineM P F (Option PeerIndex) := do
  let roster ← readRoster
  findPeer addr (List.range roster.peers.length)

def setEndpoint (peer : PeerIndex) (addr : SocketAddr) : EngineM P F Bool := do
  let roster ← readRoster
  match roster.peers[peer]? with
  | none => return false
  | some slot => onSlot slot fun s => ({ s with endpoint := some addr }, true)

def releaseEndpoint (peer : PeerIndex) (installed : SocketAddr) : EngineM P F Bool := do
  let roster ← readRoster
  match roster.peers[peer]? with
  | none => return false
  | some slot => onSlot slot fun s =>
    if s.endpoint = some installed then ({ s with endpoint := none }, true) else (s, false)

/-! ### Admission -/

structure Arrival where
  dir : Direction
  peer : PeerIndex
  packet : Bytes
  nowMs : ℕ

/-- Forwarding is refused by this node itself, whatever its filter says. -/
def refusesForwarding (config : Config P) (a : Arrival) : Bool :=
  a.dir == .inbound && (!config.gatewayForwarding || !config.filter.isScopedReady)
    && (Ip.destination a.packet).any fun d => !config.isLocal d

def verdict (config : Config P) (a : Arrival) : Verdict :=
  match a.dir with
  | .inbound =>
    if (Ip.destination a.packet).any config.isLocal then config.filter.ingressVerdict a.peer a.packet
    else config.filter.ingressForward a.peer a.packet
  | .outbound =>
    config.filter.egressVerdict a.peer a.packet ((config.peers[a.peer]?).elim [] Peer.identityAddresses)

/-- The compliance gate; what the guardrails do not classify passes. -/
def compliancePermits (config : Config P) (a : Arrival) (elapsed : ℕ)
    (snapshot : Option Compliance.PermitSnapshot) : Option Compliance.PermitSnapshot × Bool :=
  match snapshot, Ip.ports a.packet, Ip.destination a.packet with
  | some s, some ports, some destination =>
    let protocol := if ports.protocol = 6 then some Compliance.Protocol.tcp
      else if ports.protocol = 17 then some Compliance.Protocol.udp else none
    match protocol with
    | none => (some s, true)
    | some protocol =>
      match a.dir with
      | .inbound =>
        match (config.peers[a.peer]?).filter fun p => p.handle ≠ [] with
        | none => (some s, true)
        | some p =>
          let (s, ok) := s.ingressSatisfied p.handle destination protocol ports.destination elapsed
          (some s, ok)
      | .outbound =>
        let (s, ok) := s.egressSatisfied destination protocol ports.destination elapsed
        (some s, ok)
  | snapshot, _, _ => (snapshot, true)

def isSsh (a : Arrival) : Bool :=
  a.dir == .inbound && (Ip.ports a.packet).any fun p => p.destination == 22

def sshGatePermits (config : Config P) (slot : Ref) (a : Arrival) (amb : Ambient) :
    EngineM P F Bool := do
  let admitted ← onSlot slot fun s =>
    let (sshAdmissions, admitted) := s.sshAdmissions.isAdmitted .inbound a.packet a.nowMs
    ({ s with sshAdmissions }, admitted)
  if admitted then return true
  else if config.sshFilter.admitPeer a.peer = .permit then
    onSlot slot fun s =>
      ({ s with sshAdmissions := s.sshAdmissions.admitPacket amb.order .inbound a.packet a.nowMs }, true)
  else return false

/-- What the evaluation of a packet leaves to do with the flow table. -/
inductive Decision where
  | deny
  /-- A rule and the gates permit it: record the flow. -/
  | granted
  /-- No rule permits it: a flow may. -/
  | ask
  deriving DecidableEq

def gates (config : Config P) (slot : Ref) (a : Arrival) (amb : Ambient) :
    EngineM P F Decision := do
  let compliant ← .act fun e =>
    let (snapshot, ok) := compliancePermits config a amb.elapsed e.compliancePermit
    ({ e with compliancePermit := snapshot }, ok)
  if !compliant then return .deny
  else if isSsh a then
    if ← sshGatePermits config slot a amb then return .granted else return .deny
  else return .granted

def evaluate (roster : Roster P) (a : Arrival) (amb : Ambient) : EngineM P F Decision :=
  if refusesForwarding roster.config a then return .deny
  else
    match verdict roster.config a with
    | .permit =>
      match roster.peers[a.peer]? with
      | none => return .granted
      | some slot => gates roster.config slot a amb
    | .denied => return .ask
    | .unclassifiable => return .deny

def settle (roster : Roster P) (a : Arrival) (amb : Ambient) : Decision → EngineM P F Bool
  | .deny => return false
  | .granted =>
    match roster.peers[a.peer]? with
    | none => return true
    | some slot => onSlot slot fun s =>
      ({ s with flows := s.flows.record amb.order a.dir a.packet a.nowMs }, true)
  | .ask =>
    match roster.peers[a.peer]? with
    | none => return false
    | some slot => onSlot slot fun s =>
      let (flows, ok) := s.flows.permits a.dir a.packet a.nowMs
      ({ s with flows }, ok)

/-- Whether the ACL, rules and connection tracking, permits a packet. -/
def permit (roster : Roster P) (a : Arrival) (amb : Ambient) : EngineM P F Bool := do
  settle roster a amb (← evaluate roster a amb)

/-! ### Sending -/

def sendSealed (roster : Roster P) (peer : PeerIndex) (via : Via) (payload : Bytes) (nowMs : ℕ) :
    EngineM P F Output :=
  match roster.peers[peer]? with
  | none => return .empty
  | some slot => do
    let handles ← onSession slot fun s =>
      match s.transport with
      | none => (s, none)
      | some t =>
        let (s, id) := s.nextReassemblyId
        (s, some (t, s.outMacKey, id))
    match handles with
    | none => return .empty
    | some (t, macKey, id) =>
      -- the transport synchronizes itself: no session lock around the sealing
      let sealedMsg ← onSession slot fun s =>
        let (cell, result) := (s.arena.cell t).sealData P payload nowMs
        ({ s with arena := s.arena.write t cell }, result)
      match sealedMsg.toOption.bind fun m => fragment P .transportData id m macKey with
      | some frags => return ⟨frags.map fun f => ⟨some peer, f, via⟩, []⟩
      | none => return .empty

def encodeHeadClaim (hash : Bytes) (seq : ℕ) : Bytes :=
  [0x00, 0x01] ++ beBytes 8 seq ++ beBytes 4 (min hash.length (2 ^ 32 - 1)) ++ hash

def isHeadClaim (payload : Bytes) : Bool :=
  payload.take 2 == [0x00, 0x01] && decide (14 ≤ payload.length)
    && beValue ((payload.drop 10).take 4) == 64 && decide (14 + 64 ≤ payload.length)

def isFileTransferFrame (payload : Bytes) : Bool :=
  payload.head? == some 0x00 && (payload[1]?).any fun b => 0x02 ≤ b && b ≤ 0x07

def SERVICE_PORT : UInt16 := 50440

def onFileTransferFrame (roster : Roster P) (peer : PeerIndex) (payload : Bytes) (nowMs : ℕ) :
    EngineM P F Output :=
  match roster.peers[peer]? with
  | none => return .empty
  | some slot => do
    let permitted := roster.config.filter.ingressService peer SERVICE_PORT == .permit
    let frames ← onSlot slot fun s =>
      let (fileTransfers, frames) := F.onFrame permitted payload s.fileTransfers
      ({ s with fileTransfers }, frames)
    match ← via roster peer with
    | none => return .empty
    | some v => frames.foldlM (fun out frame => do
      return out ++ (← sendSealed roster peer v frame nowMs)) .empty

/-- A packet's length by its own header: the transport pads. -/
def ipTotalLength (packet : Bytes) : Option ℕ := do
  match ← Ip.version packet with
  | .v4 =>
    let len := (← Ip.readU16 packet 2).toNat
    if 20 ≤ len ∧ len ≤ packet.length then some len else none
  | .v6 =>
    let len := (← Ip.readU16 packet 4).toNat + 40
    if len ≤ packet.length then some len else none

/-- Write a decrypted packet to the host, if the sender is entitled to its source address and policy
permits it. -/
def deliverToHost (roster : Roster P) (peer : PeerIndex) (packet : Bytes) (nowMs : ℕ)
    (amb : Ambient) : EngineM P F Output :=
  if isHeadClaim packet then return .empty
  else if isFileTransferFrame packet then onFileTransferFrame roster peer packet nowMs
  else
    match Ip.addresses packet with
    | none => return .empty
    | some addrs =>
      if roster.config.routes.permits peer addrs.source then do
        if ← permit roster ⟨.inbound, peer, packet, nowMs⟩ amb then
          match ipTotalLength packet with
          | some len => return ⟨[], [packet.take len]⟩
          | none => return .empty
        else return .empty
      else return .empty

def applyAction (roster : Roster P) (peer : PeerIndex) (via : Option Via) (nowMs : ℕ) (amb : Ambient)
    (out : Output) : Action → EngineM P F Output
  | .send d =>
    match via with
    | some v => return out ++ ⟨[⟨some peer, d, v⟩], []⟩
    | none => return out
  | .deliver packet => do return out ++ (← deliverToHost roster peer packet nowMs amb)
  | .established | .closed _ => return out

def apply (roster : Roster P) (peer : PeerIndex) (actions : List Action) (nowMs : ℕ)
    (amb : Ambient) : EngineM P F Output := do
  actions.foldlM (applyAction roster peer (← via roster peer) nowMs amb) .empty

/-! ### Outbound -/

def outbound (roster : Roster P) (packet : Bytes) (nowMs : ℕ) (amb : Ambient) :
    EngineM P F Output :=
  match (Ip.destination packet).bind roster.config.routes.route with
  | none => return .empty
  | some peer => do
    if ← permit roster ⟨.outbound, peer, packet, nowMs⟩ amb then
      match ← via roster peer with
      | some v => sendSealed roster peer v packet nowMs
      | none => return .empty
    else return .empty

/-! ### Timers -/

def HOME_RELAY_RETRY_MS : ℕ := 5 * 60 * 1000
def COOKIE_ROTATION_MS : ℕ := 120000

def rotateCookie (nowMs : ℕ) (seed : Seed) : EngineM P F Unit :=
  .modify fun e =>
    match e.cookie with
    | none => { e with cookie := some (CookieSecret.new seed nowMs COOKIE_ROTATION_MS) }
    | some c => if c.needsRotation nowMs then { e with cookie := some (c.rotate seed nowMs) } else e

def claimHeadIfDue (roster : Roster P) (peer : PeerIndex) (nowMs : ℕ) :
    EngineM P F Output := do
  if ← established peer then
    match roster.peers[peer]?, ← .read Engine.bedrock with
    | some slot, some (head, _) =>
      let due ← onSlot slot fun s =>
        if s.claimedHead = head then (s, false) else ({ s with claimedHead := head }, true)
      if due then
        match ← .read Engine.bedrock with
        | none => return .empty
        | some (head, seq) =>
          match ← via roster peer with
          | some v => sendSealed roster peer v (encodeHeadClaim head seq) nowMs
          | none => return .empty
      else return .empty
    | _, _ => return .empty
  else return .empty

def retryHome (slot : Ref) (nowMs : ℕ) : EngineM P F Unit :=
  onSlot slot fun s =>
    if s.offHome ≠ 0 ∧ HOME_RELAY_RETRY_MS ≤ nowMs - s.offHome then ({ s with offHome := 0 }, ())
    else (s, ())

/-- The timers of one peer: an idle session with a path is dialled again. -/
def pollPeer (roster : Roster P) (peer : PeerIndex) (nowMs : ℕ) (seed seed' : Seed) (amb : Ambient) :
    EngineM P F Output := do
  let reconnect := (← via roster peer).isSome
  let actions ← sessionActions roster peer fun s =>
    let (s, polled) := s.poll nowMs seed
    if reconnect then
      let (s, dialled) := s.connect nowMs seed'
      (s, polled ++ dialled)
    else (s, polled)
  let out ← apply roster peer actions nowMs amb
  return out ++ (← claimHeadIfDue roster peer nowMs)

def poll (roster : Roster P) (nowMs : ℕ) (seed : ℕ → Seed) (amb : Ambient) :
    EngineM P F Output := do
  roster.peers.forM fun slot => retryHome slot nowMs
  (List.range roster.peers.length).foldlM (fun out peer => do
    return out ++ (← pollPeer roster peer nowMs (seed (2 * peer)) (seed (2 * peer + 1)) amb)) .empty

def connectAll (roster : Roster P) (nowMs : ℕ) (seed : ℕ → Seed) (amb : Ambient) :
    EngineM P F Output :=
  (List.range roster.peers.length).foldlM (fun out peer => do
    if (← via roster peer).isSome then
      let actions ← sessionActions roster peer fun s => s.connect nowMs (seed peer)
      return out ++ (← apply roster peer actions nowMs amb)
    else return out) .empty

/-! ### Inbound -/

def cookieReplyNonce (P : Primitives) (rand : ResponderRandomness) : Bytes :=
  (P.sha512 (ascii "Karst cookie-reply nonce v1" ++ rand.encapRandE.toList
    ++ rand.encapRandS.toList)).take 12

def issueCookieReply (src : SocketAddr) (reassemblyId : UInt32) (rand : ResponderRandomness) :
    EngineM P F Output := do
  match ← .read Engine.cookie with
  | none => return .empty
  | some secret =>
    let ownPk := P.toBytes (← readRoster).config.keys.kemPk
    let inMacKey ← .read Engine.inMacKey
    let reply := (buildCookieReply P ownPk reassemblyId (secret.issue P (sourceKey src))
      (cookieReplyNonce P rand)).bind fun body =>
        fragment P .cookieReply reassemblyId body inMacKey
    match reply with
    | none => return .empty
    | some frags => return ⟨frags.map fun f => ⟨none, f, .direct src⟩, []⟩

/-- The type byte is in the first fragment only. -/
def macMatches (P : Primitives) (key : Bytes) (hdr : FragmentHeader) (payload : Bytes) : Bool :=
  [payload.headD 0, 0x01, 0x02, 0x04].any fun ty =>
    verifyFragMac P key ty hdr.reassemblyId hdr.idx hdr.count payload hdr.fragMac

/-- Whether the fragment's MAC verifies, and whether it proves the address. -/
def checkFragMac (hdr : FragmentHeader) (payload : Bytes) (src : SocketAddr) :
    EngineM P F (Bool × Bool) := do
  if macMatches P (← .read Engine.inMacKey) hdr payload then return (true, false)
  else
    let mac2Ok := (← .read Engine.cookie).any fun c =>
      (c.candidates P (sourceKey src)).any fun cookie => macMatches P (mac2Key P cookie) hdr payload
    return (mac2Ok, mac2Ok)

def resolve (roster : Roster P) (hint : Bytes) (epoch : UInt32) : Option (PeerIndex × PeerPublic P) := do
  let index ← roster.byHint hint
  let peer ← roster.config.peers[index]?
  let pub ← peerPublicAtEpoch peer roster.config.pskEpoch epoch
  return (index, pub)

def matched (roster : Roster P) (msg : Bytes) : Option PeerIndex :=
  match Init.parse msg with
  | .error _ => none
  | .ok init =>
    match openInit roster.config.keys init with
    | .error _ => none
    | .ok (_, _, hint) => (resolve roster hint init.pskEpoch).map Prod.fst

def respondFor (roster : Roster P) (msg : Bytes) (rand : ResponderRandomness) (senderIndex : UInt32) :
    Option (PeerIndex × Bytes × TransportKeys) :=
  match respond roster.config.keys msg (fun hint epoch => (resolve roster hint epoch).map Prod.snd)
      rand senderIndex with
  | .error _ => none
  | .ok (msg2, pending) => (matched roster msg).map fun peer => (peer, msg2, pending.confirm)

def repeated (roster : Roster P) (peer : PeerIndex) (msg : Bytes) (seed : Seed) :
    EngineM P F (Option (List Action)) :=
  match roster.peers[peer]? with
  | none => return none
  | some slot => onSession slot fun s => s.repeatResponse msg seed

def adopt (roster : Roster P) (peer : PeerIndex) (msg : Bytes) (keys : TransportKeys) (msg2 : Bytes)
    (nowMs : ℕ) (rand : ResponderRandomness) (amb : Ambient) : EngineM P F Output := do
  let actions ← sessionActions roster peer fun s =>
    s.adoptResponder msg keys msg2 nowMs (seedFromResponderRandomness P rand)
  apply roster peer actions nowMs amb

def learnEndpoint (roster : Roster P) (peer : PeerIndex) (src : SocketAddr) :
    EngineM P F Unit :=
  match roster.peers[peer]? with
  | none => return
  | some slot => onSlot slot fun s => ({ s with endpoint := some src }, ())

/-- The response already sent for a message, by the session of the peer at its source address. -/
def repeatedAt (roster : Roster P) (msg : Bytes) (src : SocketAddr) (seed : Seed) :
    EngineM P F (Option (PeerIndex × List Action)) := do
  match ← peerAt src with
  | none => return none
  | some peer => return (← repeated roster peer msg seed).map fun actions => (peer, actions)

def acceptHandshake (roster : Roster P) (msg : Bytes) (src : SocketAddr) (nowMs : ℕ)
    (rand : ResponderRandomness) (amb : Ambient) : EngineM P F Output := do
  match ← repeatedAt roster msg src (seedFromResponderRandomness P rand) with
  | some (peer, actions) => apply roster peer actions nowMs amb
  | none =>
    let senderIndex := (← peerAt src).elim 0 localIndex
    match respondFor roster msg rand senderIndex with
    | none => return .empty
    | some (peer, msg2, keys) =>
      learnEndpoint roster peer src
      adopt roster peer msg keys msg2 nowMs rand amb

/-- A `HandshakeInit` the relay delivered: no endpoint is learned, and the peer must be the one the
relay names. -/
def acceptRelayedHandshake (roster : Roster P) (msg : Bytes) (expected : PeerIndex) (nowMs : ℕ)
    (rand : ResponderRandomness) (amb : Ambient) : EngineM P F Output := do
  match ← repeated roster expected msg (seedFromResponderRandomness P rand) with
  | some actions => apply roster expected actions nowMs amb
  | none =>
    match respondFor roster msg rand (localIndex expected) with
    | none => return .empty
    | some (peer, msg2, keys) =>
      if peer ≠ expected then return .empty
      else adopt roster peer msg keys msg2 nowMs rand amb

/-- Transport data: clone the handles under the lock, open outside it. -/
def openTransport (roster : Roster P) (peer : PeerIndex) (slot : Ref) (inbound : Inbound)
    (msg : Bytes) (nowMs : ℕ) (amb : Ambient) : EngineM P F Output := do
  let result ← onSession slot fun s =>
    let (arena, result) := inbound.openWith P s.arena msg nowMs
    ({ s with arena }, result)
  match result with
  | .error _ => return .empty
  | .ok opened =>
    if let .pending _ := opened then
      onSession slot fun s => (s.promote inbound, ())
    deliverToHost roster peer opened.intoPayload nowMs amb

/-- A complete message that is no `HandshakeInit`, from a known peer. -/
def acceptMessage (roster : Roster P) (peer : PeerIndex) (msg : Bytes) (nowMs : ℕ) (amb : Ambient) :
    EngineM P F Output := do
  match roster.peers[peer]? with
  | none => apply roster peer [] nowMs amb
  | some slot =>
    let inbound ← if msg.head? = some 0x04 then readSlot slot fun s => s.session.inbound
      else pure none
    match inbound with
    | some inbound => openTransport roster peer slot inbound msg nowMs amb
    | none =>
      let actions ← onSession slot fun s => s.deliver msg nowMs
      apply roster peer actions nowMs amb

/-- A `CookieReply` is for the session whose handshake it answers. -/
def acceptCookieReply (roster : Roster P) (hdr : FragmentHeader) (payload : Bytes) (src : SocketAddr)
    (nowMs : ℕ) (rand : ResponderRandomness) (amb : Ambient) : EngineM P F Output := do
  match ← peerAt src with
  | none => return .empty
  | some peer =>
    match roster.peers[peer]? with
    | none => return .empty
    | some slot =>
      match ← onSession slot fun s =>
          s.handleCookieReply payload hdr (seedFromResponderRandomness P rand) with
      | none => return .empty
      | some actions => apply roster peer actions nowMs amb

inductive Received where
  | nothing
  | cookieReply (hdr : FragmentHeader) (payload : Bytes)
  | complete (msg : Bytes)
  /-- Under load, and the source has not proved its address. -/
  | cookieRequired (reassemblyId : UInt32)

/-- `inbound` up to a complete message; the reassembler is the caller's. -/
def receive (reasm : Reassembler) (datagram : Bytes) (src : SocketAddr) (nowMs : ℕ) :
    EngineM P F (Reassembler × Received) :=
  match splitDatagram datagram with
  | .error _ => return (reasm, .nothing)
  | .ok (hdr, payload) =>
    if hdr.count = 1 ∧ payload.head? = some 0x03 then return (reasm, .cookieReply hdr payload)
    else do
      let (macOk, addrValidated) ← checkFragMac hdr payload src
      if !macOk then return (reasm, .nothing)
      else
        match reasm.push ⟨sourceKey src, addrValidated, hdr, payload, nowMs⟩ with
        | (reasm, .complete msg) => return (reasm, .complete msg)
        | (reasm, .rejected .cookieRequired) => return (reasm, .cookieRequired hdr.reassemblyId)
        | (reasm, _) => return (reasm, .nothing)

def inbound (roster : Roster P) (reasm : Reassembler) (datagram : Bytes) (src : SocketAddr)
    (nowMs : ℕ) (rand : ResponderRandomness) (amb : Ambient) : EngineM P F (Reassembler × Output) := do
  let (reasm, received) ← receive reasm datagram src nowMs
  match received with
  | .nothing => return (reasm, .empty)
  | .cookieReply hdr payload =>
    return (reasm, ← acceptCookieReply roster hdr payload src nowMs rand amb)
  | .complete msg =>
    if msg.head? = some 0x01 then
      return (reasm, ← acceptHandshake roster msg src nowMs rand amb)
    else
      match ← peerAt src with
      | none => return (reasm, .empty)
      | some peer => return (reasm, ← acceptMessage roster peer msg nowMs amb)
  | .cookieRequired reassemblyId =>
    return (reasm, ← issueCookieReply src reassemblyId rand)

def inboundFromRelay (roster : Roster P) (reasm : Reassembler) (sourceId : RelayId) (datagram : Bytes)
    (nowMs : ℕ) (rand : ResponderRandomness) (amb : Ambient) : EngineM P F (Reassembler × Output) :=
  match roster.byRelayId sourceId, splitDatagram datagram with
  | some peer, .ok (hdr, payload) => do
    if macMatches P (← .read Engine.inMacKey) hdr payload then
      match reasm.push ⟨relaySourceKey sourceId, true, hdr, payload, nowMs⟩ with
      | (reasm, .complete msg) =>
        if msg.head? = some 0x01 then
          return (reasm, ← acceptRelayedHandshake roster msg peer nowMs rand amb)
        else return (reasm, ← acceptMessage roster peer msg nowMs amb)
      | (reasm, _) => return (reasm, .empty)
    else return (reasm, .empty)
  | _, _ => return (reasm, .empty)

/-! ### Reconfiguration -/

/-- The sessions carried over dial at the new epoch from now on. -/
def rearmCarried (previous next : Roster P) : EngineM P F Unit :=
  (next.config.peers.zip next.peers).forM fun (peer, slot) =>
    if (previous.carried peer.hint).isSome then
      onSession slot fun s => (s.rearm peer.pub next.config.pskEpoch, ())
    else return

/-- A flow is a cached permission, so a new policy invalidates it. -/
def clearFlows (roster : Roster P) : EngineM P F Unit :=
  roster.peers.forM fun slot => onSlot slot fun s => ({ s with flows := s.flows.clear }, ())

/-- Build the next roster, with the slots of the peers it shares with this one. -/
def prepare (previous : Roster P) (config : Config P) : EngineM P F (Roster P) :=
  .act fun e =>
    let (slots, next) := buildRoster config previous.carried e.slots
    ({ e with slots }, next)

def install (next : Roster P) : EngineM P F Unit := .modify fun e => { e with roster := next }

/-- `reconfigure` up to the swap. -/
def stage (previous : Roster P) (config : Config P) : EngineM P F (Roster P) := do
  let next ← prepare previous config
  if previous.config.pskEpoch ≠ config.pskEpoch then rearmCarried previous next
  clearFlows next
  return next

/-- Replace the peer set without disturbing the sessions that survive it. -/
def reconfigure (previous : Roster P) (config : Config P) : EngineM P F Unit := do
  install (← stage previous config)

/-! ### The rest of the interface -/

def setHomeRelay (id : Option RelayId) : EngineM P F Unit :=
  .modify fun e => { e with homeRelay := id }

def setBedrock (head : Bytes) (seq : ℕ) : EngineM P F Unit :=
  .modify fun e => { e with bedrock := some (head, seq) }

inductive PermitUpdate where
  | unchanged
  | fresh (snapshot : Compliance.PermitSnapshot)
  | lost

def setCompliancePermit : PermitUpdate → EngineM P F Unit
  | .unchanged => return
  | .fresh snapshot => .modify fun e => { e with compliancePermit := some snapshot }
  | .lost => .modify fun e => { e with compliancePermit := none }

/-- The node's own relay reached, or did not reach, a peer. -/
def markHome (roster : Roster P) (peerId : RelayId) (offHome : ℕ) : EngineM P F Unit :=
  match (roster.byRelayId peerId).bind fun i => roster.peers[i]? with
  | none => return
  | some slot => onSlot slot fun s => ({ s with offHome }, ())

def seenOnHomeRelay (roster : Roster P) (peerId : RelayId) : EngineM P F Unit :=
  markHome roster peerId 0

/-- Zero is no mark, so the first millisecond counts as the second. -/
def relayUnreachable (roster : Roster P) (peerId : RelayId) (nowMs : ℕ) : EngineM P F Unit :=
  markHome roster peerId (max nowMs 1)

/-! ### Calls -/

inductive Call (P : Primitives) where
  | outbound (packet : Bytes) (nowMs : ℕ) (amb : Ambient)
  | inbound (reasm : Reassembler) (datagram : Bytes) (src : SocketAddr) (nowMs : ℕ)
      (rand : ResponderRandomness) (amb : Ambient)
  | inboundFromRelay (reasm : Reassembler) (sourceId : RelayId) (datagram : Bytes) (nowMs : ℕ)
      (rand : ResponderRandomness) (amb : Ambient)
  | poll (nowMs : ℕ) (seed : ℕ → Seed) (amb : Ambient)
  | connectAll (nowMs : ℕ) (seed : ℕ → Seed) (amb : Ambient)
  | reconfigure (config : Config P)
  | setEndpoint (peer : PeerIndex) (addr : SocketAddr)
  | releaseEndpoint (peer : PeerIndex) (installed : SocketAddr)
  | rotateCookie (nowMs : ℕ) (seed : Seed)
  | setHomeRelay (id : Option RelayId)
  | setBedrock (head : Bytes) (seq : ℕ)
  | setCompliancePermit (update : PermitUpdate)
  | seenOnHomeRelay (peerId : RelayId)
  | relayUnreachable (peerId : RelayId) (nowMs : ℕ)

/-- What a call does with the roster it copied, and the datagrams it returns. -/
def Call.body (call : Call P) (roster : Roster P) : EngineM P F Output :=
  match call with
  | .outbound packet nowMs amb => Engine.outbound roster packet nowMs amb
  | .inbound reasm datagram src nowMs rand amb =>
    Prod.snd <$> Engine.inbound roster reasm datagram src nowMs rand amb
  | .inboundFromRelay reasm sourceId datagram nowMs rand amb =>
    Prod.snd <$> Engine.inboundFromRelay roster reasm sourceId datagram nowMs rand amb
  | .poll nowMs seed amb => Engine.poll roster nowMs seed amb
  | .connectAll nowMs seed amb => Engine.connectAll roster nowMs seed amb
  | .reconfigure config => do Engine.reconfigure roster config; return .empty
  | .setEndpoint peer addr => do let _ ← Engine.setEndpoint peer addr; return .empty
  | .releaseEndpoint peer installed => do let _ ← Engine.releaseEndpoint peer installed; return .empty
  | .rotateCookie nowMs seed => do Engine.rotateCookie nowMs seed; return .empty
  | .setHomeRelay id => do Engine.setHomeRelay id; return .empty
  | .setBedrock head seq => do Engine.setBedrock head seq; return .empty
  | .setCompliancePermit update => do Engine.setCompliancePermit update; return .empty
  | .seenOnHomeRelay peerId => do Engine.seenOnHomeRelay roster peerId; return .empty
  | .relayUnreachable peerId nowMs => do Engine.relayUnreachable roster peerId nowMs; return .empty

end Engine

end Karst.Datapath
