import Karst.Foundations.Runs
import Karst.Noise.KeyAgreement
import Karst.Node.Session

/-!
# Two sessions and a network

Two nodes of one peer pair, each with a session for the other, and the messages in flight between
them.  The network works on whole messages: what `emit` and `send` split into datagrams and the
receiving side reassembles before it dispatches on the type.  It may deliver in any order and any
number of times; it makes up nothing, and loses transport messages only.

A run is a list of events.  `permitted` is what the run may assume of each: nothing is given up or
expires, and no side dials a second time on its rekey timer.
-/

namespace Karst.Node

open Crypto Noise

variable {P : Primitives}

/-- A peer pair and the randomness its two nodes draw: for dialling, and for answering. -/
structure Pair (P : Primitives) where
  keys : Bool → StaticKeys P
  psk : Vector UInt8 32
  pskEpoch : Bool → UInt32
  index : Bool → UInt32
  seed : Bool → Seed
  rand : Bool → ResponderRandomness

inductive Packet where
  | init (msg : Bytes)
  | response (msg : Bytes)
  | data (msg : Bytes)
  deriving DecidableEq

def Packet.isData : Packet → Bool
  | .data _ => true
  | _ => false

/-- Both sessions, what is in flight to each, and how many transport messages each has delivered. -/
structure Net (P : Primitives) where
  node : Bool → Session P
  inbox : Bool → List Packet
  delivered : Bool → ℕ

namespace Session

def isIdle (s : Session P) : Bool :=
  match s.state with
  | .idle => true
  | _ => false

def initPackets (s : Session P) : List Packet := s.inFlight.toList.map fun hs => .init hs.msg1

def resentPackets (s : Session P) (now : ℕ) : List Packet :=
  match s.inFlight with
  | some hs => if (hs.retryDue now).2 then [.init hs.msg1] else []
  | none => []

def responsePackets (s : Session P) (init : Bytes) : List Packet :=
  match s.answered with
  | some (answered, response) => if answered = init then [.response response] else []
  | none => []

def dataPackets (s : Session P) (payload : Bytes) (now : ℕ) : List Packet :=
  match s.state, (s.send payload now).2 with
  | .established e, .ok _ =>
    (((s.arena.cell e.session).sealData P payload now).2.toOption.map Packet.data).toList
  | _, _ => []

/-- Nothing a session holds is past its time. -/
def timely (s : Session P) (now : ℕ) : Bool :=
  match s.state with
  | .idle => true
  | .handshaking hs => !hs.abandoned now
  | .established e =>
    !(s.arena.cell e.session).expired now && e.pending.all (fun r => !(s.arena.cell r).expired now)
      && e.previous.all (fun r => !(s.arena.cell r).expired now) && e.rekey.all (fun hs => !hs.abandoned now)

def redials (s : Session P) (now : ℕ) : Bool :=
  match s.state with
  | .established e =>
    e.rekey.isNone && e.initiated && (s.arena.cell e.session).needsRekey now
  | _ => false

def canSeal (s : Session P) (now : ℕ) : Bool :=
  match s.state with
  | .established e =>
    !(s.arena.cell e.session).expired now
      && decide ((s.arena.cell e.session).sendCounter ≠ 0xFFFFFFFFFFFFFFFF)
  | _ => true

end Session

def Action.isDeliver : Action → Bool
  | .deliver _ => true
  | _ => false

namespace Net

inductive Event where
  | dial (x : Bool) (nowMs : ℕ)
  | poll (x : Bool) (nowMs : ℕ) (seed : Seed)
  /-- Packet `i` of a side arrives; a copy stays in flight if `keep`. -/
  | arrive (x : Bool) (i : ℕ) (keep : Bool) (nowMs : ℕ)
  | send (x : Bool) (payload : Bytes) (nowMs : ℕ)
  | lose (x : Bool) (i : ℕ)

def put (n : Net P) (x : Bool) (s : Session P) (out : List Packet) : Net P :=
  { n with
    node := Function.update n.node x s
    inbox := Function.update n.inbox (!x) (n.inbox (!x) ++ out) }

def take (n : Net P) (x : Bool) (i : ℕ) : Net P :=
  { n with inbox := Function.update n.inbox x ((n.inbox x).eraseIdx i) }

/-- A packet is dispatched: an init is answered, again or for the first time; anything else goes to
`deliver`. -/
def receive (R : Pair P) (n : Net P) (x : Bool) (p : Packet) (now : ℕ) : Net P :=
  match p with
  | .init m =>
    let s := ((n.node x).respondTo m (R.rand x) now).1
    n.put x s (s.responsePackets m)
  | .response m => n.put x ((n.node x).deliver m now).1 []
  | .data m =>
    let (s, actions) := (n.node x).deliver m now
    { n.put x s [] with
      delivered := Function.update n.delivered x (n.delivered x + actions.countP Action.isDeliver) }

def step (R : Pair P) (n : Net P) : Event → Net P
  | .dial x now =>
    let s := ((n.node x).connect now (R.seed x)).1
    n.put x s (if (n.node x).isIdle then s.initPackets else [])
  | .poll x now seed => n.put x ((n.node x).poll now seed).1 ((n.node x).resentPackets now)
  | .arrive x i keep now =>
    match (n.inbox x)[i]? with
    | none => n
    | some p => (if keep then n else n.take x i).receive R x p now
  | .send x payload now =>
    n.put x ((n.node x).send payload now).1 ((n.node x).dataPackets payload now)
  | .lose x i => n.take x i

/-- No give-up, no expiry, no second dial, and only transport messages are lost. -/
def permitted (n : Net P) : Event → Bool
  | .dial _ _ => true
  | .poll x now _ => (n.node x).timely now && !(n.node x).redials now
  | .arrive x _ _ now => (n.node x).timely now
  | .send x _ now => (n.node x).canSeal now
  | .lose x i => (n.inbox x)[i]?.all Packet.isData

end Net

namespace Pair

def session (R : Pair P) (x : Bool) : Session P :=
  Session.new (R.keys x) ⟨(R.keys !x).kemPk, R.psk⟩ (R.pskEpoch x) (R.index x)

def start (R : Pair P) : Net P := ⟨R.session, fun _ => [], fun _ => 0⟩

def winner (R : Pair P) : Bool :=
  decide (P.toBytes (R.keys false).kemPk < P.toBytes (R.keys true).kemPk)

def handshakeKeys (R : Pair P) (x : Bool) : Option TransportKeys := do
  let (ini, msg1) ← (initiate (R.keys x) ⟨(R.keys !x).kemPk, R.psk⟩ ⟨R.pskEpoch x, R.index x⟩
    (deriveInitiatorRandomness (R.seed x) 1)).toOption
  let (msg2, _) ← (respond (R.keys !x) msg1 (R.session !x).lookupPeer (R.rand !x) (R.index !x)).toOption
  (ini.tryFinish msg2).toOption

end Pair

/-- The two handshakes of a pair: what each side sends, what the other answers, and the keys both
get. -/
structure Exchanges (R : Pair P) where
  initiator : Bool → Initiator P
  msg1 : Bool → Bytes
  msg2 : Bool → Bytes
  keys : Bool → TransportKeys
  sent : ∀ x, initiate (R.keys x) ⟨(R.keys !x).kemPk, R.psk⟩ ⟨R.pskEpoch x, R.index x⟩
    (deriveInitiatorRandomness (R.seed x) 1) = .ok (initiator x, msg1 x)
  answered : ∀ x, respond (R.keys !x) (msg1 x) (R.session !x).lookupPeer (R.rand !x) (R.index !x)
    = .ok (msg2 x, ⟨keys x⟩)
  finished : ∀ x, (initiator x).tryFinish (msg2 x) = .ok (keys x)
  response_type : ∀ x, (msg2 x).head? = some 0x02

theorem Pair.lookupPeer_hint (R : Pair P) (x : Bool) (epoch : UInt32) :
    (R.session !x).lookupPeer (R.keys x).hint epoch = some ⟨(R.keys x).kemPk, R.psk⟩ := by
  simp [Session.lookupPeer, Pair.session, Session.new, StaticKeys.hint]

theorem exchanges_exist (hP : P.Correct) (R : Pair P) (hpaired : ∀ x, (R.keys x).Paired) :
    Nonempty (Exchanges R) := by
  have hone x : ∃ ini msg1 msg2 keys, initiate (R.keys x) ⟨(R.keys !x).kemPk, R.psk⟩ ⟨R.pskEpoch x, R.index x⟩
        (deriveInitiatorRandomness (R.seed x) 1) = .ok (ini, msg1)
      ∧ respond (R.keys !x) msg1 (R.session !x).lookupPeer (R.rand !x) (R.index !x) = .ok (msg2, ⟨keys⟩)
      ∧ ini.tryFinish msg2 = .ok keys ∧ msg2.head? = some 0x02 := by
    obtain ⟨ini, msg1, hsent⟩ := initiate_succeeds hP (R.keys x) ⟨(R.keys !x).kemPk, R.psk⟩
      ⟨R.pskEpoch x, R.index x⟩ (deriveInitiatorRandomness (R.seed x) 1)
    obtain ⟨ePk, encEmpty, keys, hresp, hfin⟩ := exchange_succeeds hP (hpaired x) (hpaired !x) hsent
      (R.lookupPeer_hint x _) (R.rand !x) (R.index !x)
    exact ⟨ini, msg1, _, keys, hsent, hresp, hfin, rfl⟩
  choose ini msg1 msg2 keys hsent hresp hfin htype using hone
  exact ⟨⟨ini, msg1, msg2, keys, hsent, hresp, hfin, htype⟩⟩

theorem Exchanges.handshakeKeys {R : Pair P} (E : Exchanges R) (x : Bool) :
    R.handshakeKeys x = some (E.keys x) := by
  simp [Pair.handshakeKeys, E.sent, E.answered, E.finished, Except.toOption]

end Karst.Node
