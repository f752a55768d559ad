import Karst.Net.Addresses
import Karst.Proto.Fragment

/-!
# Discovery datagrams

The wire format of AVEN (`karst-disco/src/msg.rs`, `key.rs`): a header, a body whose shape depends on
the type, and a MAC over both.  `peek` reads the header before a key is known, `openMessage` checks
the MAC and decodes the body.
-/

namespace Karst.Disco

open Crypto Net Proto

/-! ### Constants -/

def MAGIC : Bytes := ascii "KAVN"
def VERSION : UInt8 := 1
def TAG_LEN : ℕ := 8
def HEADER : ℕ := 4 + 1 + 1 + TAG_LEN + 4
def MAC_LEN : ℕ := 16
def KEY_LEN : ℕ := 32
def TX_ID_LEN : ℕ := 12
def ENDPOINT_LEN : ℕ := 1 + 16 + 2
def MAX_CANDIDATES : ℕ := 16
def PING_LEN : ℕ := HEADER + TX_ID_LEN + MAC_LEN
def PONG_LEN : ℕ := HEADER + TX_ID_LEN + ENDPOINT_LEN + MAC_LEN
def REFLECT_PAD_LEN : ℕ := ENDPOINT_LEN
def REFLECT_LEN : ℕ := HEADER + TX_ID_LEN + REFLECT_PAD_LEN + MAC_LEN
def REFLECTION_LEN : ℕ := HEADER + TX_ID_LEN + ENDPOINT_LEN + MAC_LEN
def MTU_PROBE_ACK_LEN : ℕ := PING_LEN
def MTU_PROBE_OVERHEAD : ℕ := HEADER + TX_ID_LEN + MAC_LEN
def MTU_FLOOR : ℕ := HANDSHAKE_DATAGRAM_MAX
def MTU_CEILING : ℕ := TRANSPORT_DATAGRAM_MAX
def MTU_PROBE_DATAGRAM_MAX : ℕ := MTU_CEILING

inductive Error where
  | notAven
  | tooLong (len : ℕ)
  | badVersion (version : UInt8)
  | unknownType (msgType : UInt8)
  | badLength (msgType : UInt8) (got : ℕ)
  | malformed
  | badMac
  deriving DecidableEq

/-! ### Endpoints -/

inductive SocketAddr where
  | v4 (ip : BitVec 32) (port : UInt16)
  | v6 (ip : BitVec 128) (port : UInt16) (flowinfo scopeId : UInt32)
  deriving DecidableEq

namespace SocketAddr

def new (ip : IpAddr) (port : UInt16) : SocketAddr :=
  match ip with
  | .v4 a => .v4 a port
  | .v6 a => .v6 a port 0 0

def ip : SocketAddr → IpAddr
  | .v4 a _ => .v4 a
  | .v6 a _ _ _ => .v6 a

def port : SocketAddr → UInt16
  | .v4 _ p => p
  | .v6 _ p _ _ => p

@[simp] theorem ip_new (a : IpAddr) (p : UInt16) : (new a p).ip = a := by
  cases a <;> rfl

@[simp] theorem port_new (a : IpAddr) (p : UInt16) : (new a p).port = p := by
  cases a <;> rfl

end SocketAddr

def toIpv4Mapped (a : BitVec 128) : Option (BitVec 32) :=
  if a >>> 32 = 0xFFFF#128 then some (a.setWidth 32) else none

structure Endpoint where
  addr : SocketAddr
  deriving DecidableEq

namespace Endpoint

/-- Family and address; an IPv4 address is followed by twelve zero bytes. -/
def encodeIp : IpAddr → Bytes
  | .v4 a => 0x04 :: (beBytes 4 a.toNat ++ List.replicate 12 0)
  | .v6 a => 0x06 :: beBytes 16 a.toNat

def encode (e : Endpoint) : Bytes := encodeIp e.addr.ip ++ beBytes 2 e.addr.port.toNat

/-- A tail that is not zero and an IPv4 address written as an IPv6 one are rejected: each address
has one spelling. -/
def decodeIp (family : UInt8) (addr : Vector UInt8 16) : Except Error IpAddr :=
  if family = 0x04 then do
    let (v4, pad) ← okOr .malformed (cut 4 addr.toList)
    if pad.any fun b => b != 0 then .error .malformed else do
    let octets ← okOr .malformed (firstChunk 4 v4)
    return .v4 (BitVec.ofNat 32 (beValue octets.toList))
  else if family = 0x06 then
    let v6 := BitVec.ofNat 128 (beValue addr.toList)
    if (toIpv4Mapped v6).isSome then .error .malformed else
    .ok (.v6 v6)
  else .error .malformed

def decode (buf : Vector UInt8 ENDPOINT_LEN) : Except Error Endpoint := do
  let family ← okOr .malformed buf.toList.head?
  let rest := buf.toList.tail
  let addr ← okOr .malformed (firstChunk 16 rest)
  let port ← okOr .malformed (lastChunk 2 rest)
  let ip ← decodeIp family addr
  return ⟨.new ip (UInt16.ofNat (beValue port.toList))⟩

end Endpoint

/-! ### Messages -/

abbrev TxId := Vector UInt8 TX_ID_LEN

inductive Message where
  | ping (tx : TxId)
  | pong (tx : TxId) (observed : Endpoint)
  | callMeMaybe (candidates : List Endpoint)
  | reflect (tx : TxId)
  | reflection (tx : TxId) (observed : Endpoint)
  | mtuProbe (tx : TxId) (padding : ℕ)
  | mtuProbeAck (tx : TxId)
  deriving DecidableEq

def T_PING : UInt8 := 0x01
def T_PONG : UInt8 := 0x02
def T_CALL_ME_MAYBE : UInt8 := 0x03
def T_REFLECT : UInt8 := 0x04
def T_REFLECTION : UInt8 := 0x05
def T_MTU_PROBE : UInt8 := 0x06
def T_MTU_PROBE_ACK : UInt8 := 0x07

structure Header where
  tag : Vector UInt8 TAG_LEN
  epoch : UInt32
  msgType : UInt8

def Header.isReflect (h : Header) : Bool := h.msgType == T_REFLECT || h.msgType == T_REFLECTION

abbrev DiscoKey := Vector UInt8 KEY_LEN

namespace DiscoKey

variable (P : Primitives)

def mac (key : DiscoKey) (bytes : Bytes) : Vector UInt8 MAC_LEN :=
  fit MAC_LEN (P.hmacSha512 key.toList bytes)

def verify (key : DiscoKey) (bytes tag : Bytes) : Bool :=
  if tag.length ≠ MAC_LEN then false else (mac P key bytes).toList == tag

theorem verify_eq_true {P : Primitives} {key : DiscoKey} {bytes tag : Bytes} :
    verify P key bytes tag = true ↔ tag = (mac P key bytes).toList := by
  unfold verify
  by_cases h : tag.length = MAC_LEN
  · rw [if_neg (not_not.mpr h), beq_iff_eq, eq_comm]
  · rw [if_pos h]
    refine iff_of_false (by decide) ?_
    intro htag
    exact h (by rw [htag]; simp)

end DiscoKey

namespace Message

def msgType : Message → UInt8
  | .ping _ => T_PING
  | .pong _ _ => T_PONG
  | .callMeMaybe _ => T_CALL_ME_MAYBE
  | .reflect _ => T_REFLECT
  | .reflection _ _ => T_REFLECTION
  | .mtuProbe _ _ => T_MTU_PROBE
  | .mtuProbeAck _ => T_MTU_PROBE_ACK

/-- What `encode` writes after the header; the list of candidates is cut at the cap. -/
def body : Message → Bytes
  | .ping tx => tx.toList
  | .mtuProbeAck tx => tx.toList
  | .pong tx observed => tx.toList ++ observed.encode
  | .reflection tx observed => tx.toList ++ observed.encode
  | .callMeMaybe candidates =>
    let take := min candidates.length MAX_CANDIDATES
    UInt8.ofNat take :: ((candidates.take take).map Endpoint.encode).flatten
  | .reflect tx => tx.toList ++ List.replicate REFLECT_PAD_LEN 0
  | .mtuProbe tx padding => tx.toList ++ List.replicate padding 0

end Message

def Header.encode (h : Header) : Bytes :=
  MAGIC ++ [VERSION, h.msgType] ++ h.tag.toList ++ beBytes 4 h.epoch.toNat

def Message.encode (P : Primitives) (m : Message) (key : DiscoKey) (tag : Vector UInt8 TAG_LEN)
    (epoch : UInt32) : Bytes :=
  let out := Header.encode ⟨tag, epoch, m.msgType⟩ ++ m.body
  out ++ (DiscoKey.mac P key out).toList

/-- Read the header of a datagram, without authenticating it. -/
def peek (datagram : Bytes) : Except Error Header :=
  if MTU_PROBE_DATAGRAM_MAX < datagram.length then .error (.tooLong datagram.length) else
  if datagram.length < HEADER + MAC_LEN then .error .notAven else do
  let magic ← okOr .notAven (firstChunk 4 datagram)
  if magic.toList ≠ MAGIC then .error .notAven else do
  let version ← okOr .notAven datagram[4]?
  if version ≠ VERSION then .error (.badVersion version) else do
  let msgType ← okOr .notAven datagram[5]?
  let tagBytes ← okOr .notAven (slice datagram 6 TAG_LEN)
  let tag ← okOr .notAven (firstChunk TAG_LEN tagBytes)
  let epochBytes ← okOr .notAven (slice datagram (6 + TAG_LEN) (HEADER - (6 + TAG_LEN)))
  let epochBytes ← okOr .notAven (firstChunk 4 epochBytes)
  return ⟨tag, UInt32.ofNat (beValue epochBytes.toList), msgType⟩

def decodeTx (badLen : Error) (body : Bytes) : Except Error TxId :=
  okOr badLen (firstChunk TX_ID_LEN body)

def decodeObserved (badLen : Error) (body : Bytes) : Except Error (TxId × Endpoint) := do
  let tx ← decodeTx badLen body
  let (_, rest) ← okOr badLen (cut TX_ID_LEN body)
  let ep ← okOr badLen (firstChunk ENDPOINT_LEN rest)
  let observed ← Endpoint.decode ep
  return (tx, observed)

/-- The body of a `Reflect` and of an `MtuProbe`: padding that is not zero is rejected. -/
def decodePadded (badLen : Error) (body : Bytes) : Except Error (TxId × ℕ) := do
  let tx ← decodeTx badLen body
  let (_, pad) ← okOr badLen (cut TX_ID_LEN body)
  if pad.any fun b => b != 0 then .error .malformed else
  return (tx, pad.length)

def decodeEndpoints : List (Vector UInt8 ENDPOINT_LEN) → Except Error (List Endpoint)
  | [] => .ok []
  | chunk :: rest => do
    let c ← Endpoint.decode chunk
    let cs ← decodeEndpoints rest
    return c :: cs

/-- The body of a `CallMeMaybe`: a count outside its limits is rejected, not truncated. -/
def decodeCandidates (badLen : Error) : Bytes → Except Error (List Endpoint)
  | [] => .error badLen
  | count :: rest =>
    if count.toNat = 0 ∨ MAX_CANDIDATES < count.toNat then .error .malformed else
    if rest.length ≠ count.toNat * ENDPOINT_LEN then .error badLen else
    decodeEndpoints (chunks ENDPOINT_LEN (rest.length / ENDPOINT_LEN) rest)

def decodeBody (header : Header) (body : Bytes) (total : ℕ) : Except Error Message :=
  let badLen := Error.badLength header.msgType total
  -- the reflect types name no epoch
  if header.isReflect ∧ header.epoch ≠ 0 then .error .malformed else
  if header.msgType = T_PING then
    if total ≠ PING_LEN then .error badLen else
    return .ping (← decodeTx badLen body)
  else if header.msgType = T_PONG then
    if total ≠ PONG_LEN then .error badLen else do
    let (tx, observed) ← decodeObserved badLen body
    return .pong tx observed
  else if header.msgType = T_CALL_ME_MAYBE then
    return .callMeMaybe (← decodeCandidates badLen body)
  else if header.msgType = T_REFLECT then
    if total ≠ REFLECT_LEN then .error badLen else
    return .reflect (← decodePadded badLen body).1
  else if header.msgType = T_MTU_PROBE then
    if total < MTU_PROBE_OVERHEAD then .error badLen else do
    let (tx, padding) ← decodePadded badLen body
    return .mtuProbe tx padding
  else if header.msgType = T_MTU_PROBE_ACK then
    if total ≠ MTU_PROBE_ACK_LEN then .error badLen else
    return .mtuProbeAck (← decodeTx badLen body)
  else if header.msgType = T_REFLECTION then
    if total ≠ REFLECTION_LEN then .error badLen else do
    let (tx, observed) ← decodeObserved badLen body
    return .reflection tx observed
  else .error (.unknownType header.msgType)

def openMessage (P : Primitives) (datagram : Bytes) (key : DiscoKey) : Except Error Message := do
  let header ← peek datagram
  let split ← okOr .notAven (if MAC_LEN ≤ datagram.length then some (datagram.length - MAC_LEN) else none)
  let (signed, mac) ← okOr .notAven (cut split datagram)
  -- authenticated before the body is looked at
  if ¬ DiscoKey.verify P key signed mac then .error .badMac else do
  let (_, body) ← okOr .notAven (cut HEADER signed)
  decodeBody header body datagram.length

end Karst.Disco
