import Karst.Foundations.Arena
import Karst.Noise.Handshake
import Karst.Noise.Transport
import Karst.Proto.Cookies

/-!
# One peer's session

`Session` of `karst-node/src/session.rs`, sans I/O: every entry point takes the time and its
randomness and returns the session as it leaves it with the actions for the caller.

The three key slots hold `Arc`s that receivers clone and use outside the session's lock.  They are
addresses into an arena here: a snapshot names the same cells as the session it was taken from, and
`Arc::ptr_eq` is equality of addresses.  `accept` is left out.
-/

namespace Karst.Node

open Crypto Noise Proto

def RETRY_INITIAL_MS : ℕ := 300
def RETRY_MAX_MS : ℕ := 5000
def HANDSHAKE_GIVE_UP_MS : ℕ := 90000

abbrev Seed := Vector UInt8 32

inductive CloseReason where
  | handshakeTimeout
  | expired
  | rejected
  deriving DecidableEq

inductive Action where
  | send (datagram : Bytes)
  | established
  | deliver (payload : Bytes)
  | closed (reason : CloseReason)
  deriving DecidableEq

/-- A handshake in flight, its first message kept for retransmission. -/
structure Handshake (P : Primitives) where
  initiator : Initiator P
  msg1 : Bytes
  startedMs : ℕ
  nextRetryMs : ℕ
  backoffMs : ℕ

namespace Handshake

variable {P : Primitives}

/-- Past the window in which a handshake may still complete. -/
def abandoned (hs : Handshake P) (nowMs : ℕ) : Bool :=
  decide (HANDSHAKE_GIVE_UP_MS ≤ nowMs - hs.startedMs)

/-- Whether to retransmit now, advancing the backoff if so. -/
def retryDue (hs : Handshake P) (nowMs : ℕ) : Handshake P × Bool :=
  if nowMs < hs.nextRetryMs then (hs, false)
  else
    let backoff := min (min (hs.backoffMs * 2) (2 ^ 64 - 1)) RETRY_MAX_MS
    ({ hs with backoffMs := backoff, nextRetryMs := saturatingAdd nowMs backoff }, true)

end Handshake

structure Established (P : Primitives) where
  session : Ref
  /-- Whether this node initiated the handshake `session` came from. -/
  initiated : Bool
  /-- A handshake in flight beside the session. -/
  rekey : Option (Handshake P)
  /-- Keys derived as responder while `session` was carrying traffic. -/
  pending : Option Ref
  /-- The session a rekey replaced, kept for decryption only. -/
  previous : Option Ref

inductive State (P : Primitives) where
  | idle
  | handshaking (hs : Handshake P)
  | established (e : Established P)

/-- The keys an inbound transport message may have been sealed under. -/
structure Inbound where
  current : Ref
  pending : Option Ref
  previous : Option Ref

inductive Opened where
  | current (payload : Bytes)
  | previous (payload : Bytes)
  | pending (payload : Bytes)

def Opened.intoPayload : Opened → Bytes
  | .current p | .previous p | .pending p => p

def openAt (P : Primitives) (arena : Arena TransportSession) (r : Ref) (datagram : Bytes)
    (nowMs : ℕ) : Arena TransportSession × Except TransportError Bytes :=
  let (t, result) := (arena.cell r).openData P datagram nowMs
  (arena.write r t, result)

/-- `openAt` where there may be no session; the source looks only at success. -/
def openSlot (P : Primitives) (arena : Arena TransportSession) (slot : Option Ref)
    (datagram : Bytes) (nowMs : ℕ) : Arena TransportSession × Option Bytes :=
  match slot with
  | none => (arena, none)
  | some r =>
    match openAt P arena r datagram nowMs with
    | (arena, .ok payload) => (arena, some payload)
    | (arena, .error _) => (arena, none)

/-- Try the live keys, then the ones a rekey replaced, then the ones awaiting assurance.  The error
is the live session's. -/
def Inbound.openWith (P : Primitives) (self : Inbound) (arena : Arena TransportSession)
    (datagram : Bytes) (nowMs : ℕ) : Arena TransportSession × Except TransportError Opened :=
  match openAt P arena self.current datagram nowMs with
  | (arena, .ok payload) => (arena, .ok (.current payload))
  | (arena, .error first) =>
    match openSlot P arena self.previous datagram nowMs with
    | (arena, some payload) => (arena, .ok (.previous payload))
    | (arena, none) =>
      match openSlot P arena self.pending datagram nowMs with
      | (arena, some payload) => (arena, .ok (.pending payload))
      | (arena, none) => (arena, .error first)

structure Session (P : Primitives) where
  keys : StaticKeys P
  peer : PeerPublic P
  pskEpoch : UInt32
  index : UInt32
  state : State P
  /-- So that each retry uses fresh ephemerals. -/
  attempt : UInt32
  reasm : Reassembler
  outMacKey : Bytes
  inMacKey : Bytes
  reassemblyId : UInt32
  /-- The last `HandshakeInit` answered and the response sent for it. -/
  answered : Option (Bytes × Bytes)
  /-- The transport sessions allocated for this peer. -/
  arena : Arena TransportSession

/-! ### Derived randomness -/

/-- Per-attempt ephemeral seeds; only the low byte of the attempt enters. -/
def deriveInitiatorRandomness (seed : Seed) (attempt : UInt32) : InitiatorRandomness where
  eKemSeed := Vector.ofFn fun i =>
    seed[i.val % 32]?.getD 0 ^^^ (attempt.toUInt8 + UInt8.ofNat (i.val % 251))
  encapRand := Vector.ofFn fun i => seed[i] + attempt.toUInt8 + 0x22
  timestamp := Vector.replicate TIMESTAMP_LEN 0

def deriveReassemblyId (P : Primitives) (seed : Seed) : UInt32 :=
  UInt32.ofNat (leValue ((P.sha512 (ascii "Karst reassembly-id v1" ++ seed.toList)).take 4))

def seedFromResponderRandomness (P : Primitives) (rand : ResponderRandomness) : Seed :=
  fit 32 (P.sha512 (ascii "Karst per-datagram seed v1" ++ rand.encapRandE.toList
    ++ rand.encapRandS.toList))

namespace Session

variable {P : Primitives}

/-! ### Construction and framing -/

def unallocated : TransportSession := TransportSession.new ⟨[], []⟩ .initiator 0 0

def new (keys : StaticKeys P) (peer : PeerPublic P) (pskEpoch index : UInt32) : Session P where
  keys := keys
  peer := peer
  pskEpoch := pskEpoch
  index := index
  state := .idle
  attempt := 0
  reasm := Reassembler.new Config.perSession
  outMacKey := mac1Key P (P.toBytes peer.kemPk)
  inMacKey := mac1Key P (P.toBytes keys.kemPk)
  reassemblyId := 0
  answered := none
  arena := Arena.empty unallocated

def emit (s : Session P) (ty : MessageType) (msg : Bytes) (seed : Seed) :
    Session P × List Action :=
  let s := { s with reassemblyId := deriveReassemblyId P seed }
  match fragment P ty s.reassemblyId msg s.outMacKey with
  | some frags => (s, frags.map .send)
  | none => (s, [.closed .rejected])

/-! ### Dialling and timers -/

/-- Build a fresh handshake without deciding where it belongs. -/
def newHandshake (s : Session P) (nowMs : ℕ) (seed : Seed) : Session P × Option (Handshake P) :=
  let s := { s with attempt := s.attempt + 1 }
  match initiate s.keys s.peer ⟨s.pskEpoch, s.index⟩ (deriveInitiatorRandomness seed s.attempt) with
  | .error _ => (s, none)
  | .ok (initiator, msg1) =>
    (s, some ⟨initiator, msg1, nowMs, saturatingAdd nowMs RETRY_INITIAL_MS, RETRY_INITIAL_MS⟩)

def startHandshake (s : Session P) (nowMs : ℕ) (seed : Seed) : Session P × List Action :=
  match s.newHandshake nowMs seed with
  | (s, none) => (s, [.closed .rejected])
  | (s, some hs) => { s with state := .handshaking hs }.emit .handshakeInit hs.msg1 seed

def connect (s : Session P) (nowMs : ℕ) (seed : Seed) : Session P × List Action :=
  match s.state with
  | .idle => s.startHandshake nowMs seed
  | _ => (s, [])

def pollHandshaking (s : Session P) (hs : Handshake P) (nowMs : ℕ) (seed : Seed) :
    Session P × List Action :=
  if hs.abandoned nowMs then ({ s with state := .idle }, [.closed .handshakeTimeout])
  else
    let (hs, due) := hs.retryDue nowMs
    let s := { s with state := .handshaking hs }
    if due then s.emit .handshakeInit hs.msg1 seed else (s, [])

/-- `poll` on a rekey in flight: an abandoned one leaves the live session alone. -/
def pollRekey (s : Session P) (e : Established P) (hs : Handshake P) (nowMs : ℕ) (seed : Seed) :
    Session P × List Action :=
  if hs.abandoned nowMs then ({ s with state := .established { e with rekey := none } }, [])
  else
    let (hs, due) := hs.retryDue nowMs
    let s := { s with state := .established { e with rekey := some hs } }
    if due then s.emit .handshakeInit hs.msg1 seed else (s, [])

/-- `poll` on an established session without a rekey: only the initiator starts one. -/
def pollIdleRekey (s : Session P) (e : Established P) (nowMs : ℕ) (seed : Seed) :
    Session P × List Action :=
  let s := { s with state := .established e }
  if e.initiated && (s.arena.cell e.session).needsRekey nowMs then
    match s.newHandshake nowMs seed with
    | (s, none) => (s, [])
    | (s, some hs) =>
      { s with state := .established { e with rekey := some hs } }.emit .handshakeInit hs.msg1 seed
  else (s, [])

/-- Key material past its validity is let go of. -/
def unexpired (s : Session P) (nowMs : ℕ) (slot : Option Ref) : Option Ref :=
  slot.filter fun r => !(s.arena.cell r).expired nowMs

def pollEstablished (s : Session P) (e : Established P) (nowMs : ℕ) (seed : Seed) :
    Session P × List Action :=
  if (s.arena.cell e.session).expired nowMs then ({ s with state := .idle }, [.closed .expired])
  else
    let e := { e with
      pending := s.unexpired nowMs e.pending
      previous := s.unexpired nowMs e.previous }
    match e.rekey with
    | some hs => s.pollRekey e hs nowMs seed
    | none => s.pollIdleRekey e nowMs seed

def poll (s : Session P) (nowMs : ℕ) (seed : Seed) : Session P × List Action :=
  match s.state with
  | .idle => (s, [])
  | .handshaking hs => s.pollHandshaking hs nowMs seed
  | .established e => s.pollEstablished e nowMs seed

/-! ### Inbound messages -/

def inbound (s : Session P) : Option Inbound :=
  match s.state with
  | .established e => some ⟨e.session, e.pending, e.previous⟩
  | _ => none

/-- Adopt the keys a responder was holding: those that opened the message, not whatever is waiting
when this is called. -/
def promote (s : Session P) (proven : Inbound) : Session P :=
  match proven.pending, s.state with
  | some r, .established e =>
    if e.session = r then s
    else
      let waiting := if e.pending = some r then none else e.pending
      { s with state := .established ⟨r, false, none, waiting, some e.session⟩ }
  | _, _ => s

def inFlight (s : Session P) : Option (Handshake P) :=
  match s.state with
  | .handshaking hs => some hs
  | .established e => e.rekey
  | .idle => none

/-- The higher static KEM public key wins. -/
def winsSimultaneousOpenTiebreak (s : Session P) : Bool :=
  decide (P.toBytes s.peer.kemPk < P.toBytes s.keys.kemPk)

/-- A rekey beside a session this node did not initiate: both sides dialled. -/
def crossed (s : Session P) : Bool :=
  match s.state with
  | .established e => e.rekey.isSome && !e.initiated
  | _ => false

/-- Let go of the handshake in flight beside an established session. -/
def dropRekey (s : Session P) : Session P :=
  match s.state with
  | .established e => { s with state := .established { e with rekey := none } }
  | _ => s

/-- Install a finished handshake; the keys it replaces are kept for decryption, and keys awaiting
assurance keep waiting. -/
def install (s : Session P) (keys : TransportKeys) (nowMs : ℕ) : Session P :=
  let (replaced, waiting) := match s.state with
    | .established e => (some e.session, e.pending)
    | _ => (none, none)
  { s with
    arena := s.arena.alloc (TransportSession.new keys .initiator s.index nowMs)
    state := .established ⟨s.arena.next, true, none, waiting, replaced⟩ }

def handleResponse (s : Session P) (datagram : Bytes) (nowMs : ℕ) : Session P × List Action :=
  match s.inFlight with
  | none => (s, [])
  | some hs =>
    match hs.initiator.tryFinish datagram with
    | .error _ => (s, [])
    | .ok keys =>
      if s.crossed && !s.winsSimultaneousOpenTiebreak then (s.dropRekey, [])
      else (s.install keys nowMs, [.established])

def handleTransport (s : Session P) (datagram : Bytes) (nowMs : ℕ) : Session P × List Action :=
  match s.inbound with
  | none => (s, [])
  | some inbound =>
    let (arena, result) := inbound.openWith P s.arena datagram nowMs
    let s := { s with arena }
    match result with
    | .ok (.pending payload) => (s.promote inbound, [.deliver payload])
    | .ok opened => (s, [.deliver opened.intoPayload])
    | .error .expired => ({ s with state := .idle }, [.closed .expired])
    | .error _ => (s, [])

def deliver (s : Session P) (msg : Bytes) (nowMs : ℕ) : Session P × List Action :=
  match msg.head? with
  | some 0x02 => s.handleResponse msg nowMs
  | some 0x04 => s.handleTransport msg nowMs
  | _ => (s, [])

/-- The type byte is in the first fragment only, so a MAC under any plausible type will do. -/
def macOk (s : Session P) (hdr : FragmentHeader) (payload : Bytes) : Bool :=
  [payload.head?.getD 0, 0x02, 0x04].any fun ty =>
    verifyFragMac P s.inMacKey ty hdr.reassemblyId hdr.idx hdr.count payload hdr.fragMac

def handle (s : Session P) (datagram : Bytes) (source : SourceKey) (nowMs : ℕ) :
    Session P × List Action :=
  match splitDatagram datagram with
  | .error _ => (s, [])
  | .ok (hdr, payload) =>
    if s.macOk hdr payload then
      match s.reasm.push ⟨source, true, hdr, payload, nowMs⟩ with
      | (reasm, .complete msg) => { s with reasm }.deliver msg nowMs
      | (reasm, _) => ({ s with reasm }, [])
    else (s, [])

/-! ### Sending -/

def send (s : Session P) (payload : Bytes) (nowMs : ℕ) :
    Session P × Except TransportError (List Bytes) :=
  match s.state with
  | .established e =>
    let (t, result) := (s.arena.cell e.session).sealData P payload nowMs
    let s := { s with arena := s.arena.write e.session t }
    match result with
    | .error err => (s, .error err)
    | .ok sealedMsg =>
      let s := { s with reassemblyId := s.reassemblyId + 1 }
      (s, okOr .malformed (fragment P .transportData s.reassemblyId sealedMsg s.outMacKey))
  | _ => (s, .error .expired)

/-! ### Answering -/

/-- Install a responder session the caller negotiated itself.  A working session is not torn down on
the strength of a `HandshakeInit`: the keys wait beside it. -/
def adoptResponder (s : Session P) (init : Bytes) (keys : TransportKeys) (msg2 : Bytes)
    (nowMs : ℕ) (seed : Seed) : Session P × List Action :=
  let s := { s with answered := some (init, msg2) }
  let (s, actions) := s.emit .handshakeResponse msg2 seed
  let derived := s.arena.next
  let s := { s with
    arena := s.arena.alloc (TransportSession.new keys .responder s.index nowMs) }
  match s.state with
  | .established e => ({ s with state := .established { e with pending := some derived } }, actions)
  | .handshaking hs =>
    ({ s with state := .established ⟨derived, false, some hs, none, none⟩ }, actions ++ [.established])
  | .idle =>
    ({ s with state := .established ⟨derived, false, none, none, none⟩ }, actions ++ [.established])

/-- The response already sent for this exact `HandshakeInit`. -/
def repeatResponse (s : Session P) (init : Bytes) (seed : Seed) :
    Session P × Option (List Action) :=
  match s.answered with
  | none => (s, none)
  | some (answered, response) =>
    if answered ≠ init then (s, none)
    else
      let (s, actions) := s.emit .handshakeResponse response seed
      (s, some actions)

def lookupPeer (s : Session P) (hint : Bytes) (_pskEpoch : UInt32) : Option (PeerPublic P) :=
  if hint ≠ peerIdHint P (P.toBytes s.peer.kemPk) then none else some ⟨s.peer.kemPk, s.peer.psk⟩

def respondTo (s : Session P) (datagram : Bytes) (rand : ResponderRandomness) (nowMs : ℕ) :
    Session P × List Action :=
  let seed := seedFromResponderRandomness P rand
  match s.repeatResponse datagram seed with
  | (s, some actions) => (s, actions)
  | (s, none) =>
    match respond s.keys datagram s.lookupPeer rand s.index with
    | .error _ => (s, [])
    | .ok (msg2, pending) => s.adoptResponder datagram pending.confirm msg2 nowMs seed

/-! ### For a caller that frames datagrams itself -/

/-- Point the session at a refreshed view of its peer, for the next handshake. -/
def rearm (s : Session P) (peer : PeerPublic P) (pskEpoch : UInt32) : Session P :=
  { s with peer, pskEpoch }

def established (s : Session P) : Bool :=
  match s.state with
  | .established _ => true
  | _ => false

def transport (s : Session P) : Option Ref :=
  match s.state with
  | .established e => some e.session
  | _ => none

def nextReassemblyId (s : Session P) : Session P × UInt32 :=
  let id := s.reassemblyId + 1
  ({ s with reassemblyId := id }, id)

/-- A cookie reply to the `HandshakeInit` in flight: retransmit it once, under the cookie.  `none` is
a reply whose own MAC does not verify. -/
def handleCookieReply (s : Session P) (payload : Bytes) (hdr : FragmentHeader) (seed : Seed) :
    Session P × Option (List Action) :=
  if !verifyFragMac P s.outMacKey 0x03 hdr.reassemblyId hdr.idx hdr.count payload hdr.fragMac then
    (s, none)
  else
    match openCookieReply P (P.toBytes s.peer.kemPk) payload with
    | none => (s, some [])
    | some (receiverIndex, cookie) =>
      if receiverIndex ≠ s.reassemblyId then (s, some [])
      else
        match s.inFlight with
        | none => (s, some [])
        | some hs =>
          let s := { s with reassemblyId := deriveReassemblyId P seed }
          match fragment P .handshakeInit s.reassemblyId hs.msg1 (mac2Key P cookie) with
          | some frags => (s, some (frags.map .send))
          | none => (s, some [])

end Session

end Karst.Node
