import Karst.Crypto.Primitives
import Karst.Relay.Frames

/-!
# The Ponor handshake

The two state machines of `karst-relay-proto/src/handshake.rs`.  The relay speaks first with a fresh
random; the peer signs it together with its own, and the relay signs the same fields under another
label.  A peer's key comes from the roster and from nowhere else.
-/

namespace Karst.Relay

open Crypto

/-! ### Signing inputs -/

def LABEL_CLIENT_AUTH : Bytes := ascii "ponor-client-auth-v1"
def LABEL_RELAY_AUTH : Bytes := ascii "ponor-relay-auth-v1"

def pushField (field : Bytes) : Bytes := beBytes 4 (min field.length (2 ^ 32 - 1)) ++ field

/-- What both signatures are about. -/
structure Session where
  relayId : Id
  relayRandom : Random
  clientRandom : Random
  peerId : Id
  role : Role

def transcriptInput (label : Bytes) (s : Session) : Bytes :=
  label ++ pushField s.relayId.toList ++ pushField s.relayRandom.toList
    ++ pushField s.clientRandom.toList ++ pushField s.peerId.toList ++ pushField [s.role.toWire]

def transcript (P : Primitives) (label : Bytes) (s : Session) : Bytes :=
  P.sha512 (transcriptInput label s)

def clientAuthSigningInput (P : Primitives) (s : Session) : Bytes := transcript P LABEL_CLIENT_AUTH s

def relayAuthSigningInput (P : Primitives) (s : Session) : Bytes := transcript P LABEL_RELAY_AUTH s

/-! ### Rosters -/

/-- `sign`, which may refuse. -/
abbrev Signer := Bytes → Option Bytes

/-- Public key, message, signature. -/
abbrev Verifier := Bytes → Bytes → Bytes → Bool

/-- An aquifer's name; forwarding is scoped by it. -/
abbrev AquiferId := Bytes

structure RosterEntry where
  identityPk : Bytes
  aquifer : AquiferId

structure RelayEntry where
  identityPk : Bytes

/-- The set of peers a relay will speak to, and a key that verifies nothing. -/
structure Roster where
  client : Id → Option RosterEntry
  meshPeer : Id → Option RelayEntry
  decoyKey : Bytes

inductive Admitted where
  | client (nodeId : Id) (aquifer : AquiferId)
  | mesh (relayId : Id)

namespace Admitted

def nodeId : Admitted → Option Id
  | .client n _ => some n
  | .mesh _ => none

end Admitted

/-! ### The connecting side -/

inductive ClientState where
  | awaitingHello
  | awaitingAuth (relayRandom : Random)
  | established
  | failed
  deriving DecidableEq

structure ClientHandshake where
  role : Role
  peerId : Id
  expectedRelayId : Id
  relayIdentityPk : Bytes
  clientRandom : Random
  state : ClientState
  deriving DecidableEq

namespace ClientHandshake

def new (role : Role) (peerId expectedRelayId : Id) (relayIdentityPk : Bytes)
    (clientRandom : Random) : ClientHandshake :=
  ⟨role, peerId, expectedRelayId, relayIdentityPk, clientRandom, .awaitingHello⟩

def fail {α : Type} (c : ClientHandshake) (e : Error) : ClientHandshake × Except Error α :=
  ({ c with state := .failed }, .error e)

def session (c : ClientHandshake) (relayRandom : Random) : Session :=
  ⟨c.expectedRelayId, relayRandom, c.clientRandom, c.peerId, c.role⟩

def onRelayHello (P : Primitives) (c : ClientHandshake) (frame : Frame) (signer : Signer) :
    ClientHandshake × Except Error Bytes :=
  match frame with
  | .relayHello relayId relayRandom =>
    if c.state ≠ .awaitingHello then c.fail .outOfOrder
    -- before signing: a signature over an impostor's id would name it
    else if relayId ≠ c.expectedRelayId then c.fail .relayIdentityMismatch
    else
      let input := clientAuthSigningInput P ⟨relayId, relayRandom, c.clientRandom, c.peerId, c.role⟩
      match (signer input).filter fun sig => sig.length == SIG_LEN with
      | none => c.fail .signerUnavailable
      | some signature =>
        ({ c with state := .awaitingAuth relayRandom },
          .ok (Frame.clientAuth c.role c.peerId c.clientRandom signature).toVec)
  | _ => c.fail .outOfOrder

def onRelayAuth (P : Primitives) (c : ClientHandshake) (frame : Frame) (verify : Verifier) :
    ClientHandshake × Except Error Unit :=
  match frame, c.state with
  | .relayAuth signature, .awaitingAuth relayRandom =>
    let input := relayAuthSigningInput P (c.session relayRandom)
    if !verify c.relayIdentityPk input signature then c.fail .rejected
    else ({ c with state := .established }, .ok ())
  | _, _ => c.fail .outOfOrder

def isEstablished (c : ClientHandshake) : Bool := c.state == .established

end ClientHandshake

/-! ### The listening side -/

inductive RelayState where
  | awaitingAuth
  | established
  | failed
  deriving DecidableEq

structure RelayHandshake where
  relayId : Id
  relayRandom : Random
  state : RelayState

namespace RelayHandshake

def new (relayId : Id) (relayRandom : Random) : RelayHandshake :=
  ⟨relayId, relayRandom, .awaitingAuth⟩

def fail {α : Type} (r : RelayHandshake) (e : Error) : RelayHandshake × Except Error α :=
  ({ r with state := .failed }, .error e)

/-- The key to verify against, and who it would admit. -/
def lookUp (roster : Roster) (role : Role) (peerId : Id) : Bytes × Option Admitted :=
  match role with
  | .client =>
    match roster.client peerId with
    | some e => (e.identityPk, some (.client peerId e.aquifer))
    | none => (roster.decoyKey, none)
  | .mesh =>
    match roster.meshPeer peerId with
    | some e => (e.identityPk, some (.mesh peerId))
    | none => (roster.decoyKey, none)

/-- Verify `ClientAuth`, decide admission, and the encoded `RelayAuth` to send. -/
def onClientAuth (P : Primitives) (r : RelayHandshake) (frame : Frame) (roster : Roster)
    (verify : Verifier) (signer : Signer) : RelayHandshake × Except Error (Admitted × Bytes) :=
  match frame with
  | .clientAuth role peerId clientRandom signature =>
    if r.state ≠ .awaitingAuth then r.fail .outOfOrder
    else
      let (key, admitted) := lookUp roster role peerId
      let session : Session := ⟨r.relayId, r.relayRandom, clientRandom, peerId, role⟩
      let verified := verify key (clientAuthSigningInput P session) signature
      match admitted.filter fun _ => verified with
      | none => r.fail .rejected
      | some admitted =>
        match (signer (relayAuthSigningInput P session)).filter fun s => s.length == SIG_LEN with
        | none => r.fail .signerUnavailable
        | some sig =>
          ({ r with state := .established }, .ok (admitted, (Frame.relayAuth sig).toVec))
  | _ => r.fail .outOfOrder

def isEstablished (r : RelayHandshake) : Bool := r.state == .established

end RelayHandshake

end Karst.Relay
