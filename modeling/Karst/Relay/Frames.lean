import Karst.Foundations.Framing

/-!
# Ponor frames

The frames of `karst-relay-proto/src/frame.rs`: a type byte, a 24-bit length and a payload.  `decode`
looks at the front of a buffer and waits for a frame that is not there yet.
-/

namespace Karst.Relay

open Option Except
open List hiding Vector

/-! ### Constants -/

def VERSION : UInt8 := 1
/-- One type byte and a 24-bit length. -/
def FRAME_HEADER : ℕ := 4
def FRAME_PAYLOAD_MAX : ℕ := 8192
def ID_LEN : ℕ := 32
def RANDOM_LEN : ℕ := 32
def SIG_LEN : ℕ := 4627
def PAYLOAD_MAX : ℕ := 1336
def PAYLOAD_MIN : ℕ := 1
def RELAY_HELLO_LEN : ℕ := 1 + ID_LEN + RANDOM_LEN
def CLIENT_AUTH_LEN : ℕ := 1 + 1 + ID_LEN + RANDOM_LEN + SIG_LEN
def RELAY_AUTH_LEN : ℕ := 1 + SIG_LEN
def PEER_GONE_LEN : ℕ := ID_LEN + 1
def TOKEN_LEN : ℕ := 8
def RESTARTING_LEN : ℕ := 8
def REFLECT_KEY_LEN : ℕ := 32
def ENDPOINT_LEN : ℕ := 1 + 16 + 2
def REFLECT_OFFER_LEN : ℕ := REFLECT_KEY_LEN + ENDPOINT_LEN

inductive Error where
  | frameTooLarge (len : ℕ)
  | unknownFrameType (frameType : UInt8)
  | badFrameLength (frameType : UInt8) (got : ℕ)
  | badVersion (version : UInt8)
  | badRole (role : UInt8)
  | badReason (reason : UInt8)
  | outOfOrder
  | rejected
  | relayIdentityMismatch
  | signerUnavailable
  deriving DecidableEq

/-! ### Roles and reasons -/

inductive Role where
  | client
  | mesh
  deriving DecidableEq

namespace Role

def fromWire (b : UInt8) : Except Error Role :=
  if b = 0x01 then .ok .client else if b = 0x02 then .ok .mesh else .error (.badRole b)

def toWire : Role → UInt8
  | .client => 0x01
  | .mesh => 0x02

theorem fromWire_eq_ok {b : UInt8} {role : Role} : fromWire b = .ok role ↔ b = role.toWire := by
  unfold fromWire
  constructor
  · intro h
    split at h
    · rw [← ok.inj h]
      assumption
    split at h
    · rw [← ok.inj h]
      assumption
    · cases h
  · intro h
    subst h
    cases role <;> rfl

end Role

inductive Reason where
  | notHere
  | disconnected
  | notAdmitted
  | replaced
  | rateLimited
  | shuttingDown
  | protocolError
  deriving DecidableEq

namespace Reason

def toWire : Reason → UInt8
  | .notHere => 0x00
  | .disconnected => 0x01
  | .notAdmitted => 0x02
  | .replaced => 0x03
  | .rateLimited => 0x04
  | .shuttingDown => 0x05
  | .protocolError => 0x06

def fromWire (b : UInt8) : Except Error Reason :=
  if b = 0x00 then .ok .notHere
  else if b = 0x01 then .ok .disconnected
  else if b = 0x02 then .ok .notAdmitted
  else if b = 0x03 then .ok .replaced
  else if b = 0x04 then .ok .rateLimited
  else if b = 0x05 then .ok .shuttingDown
  else if b = 0x06 then .ok .protocolError
  else .error (.badReason b)

theorem fromWire_eq_ok {b : UInt8} {reason : Reason} : fromWire b = .ok reason ↔ b = reason.toWire := by
  unfold fromWire
  constructor
  · intro h
    repeat' split at h
    all_goals first
      | (cases h; assumption)
      | cases h
  · intro h
    subst h
    cases reason <;> rfl

end Reason

/-! ### Frames -/

abbrev Id := Vector UInt8 ID_LEN
abbrev Random := Vector UInt8 RANDOM_LEN

inductive Frame where
  | relayHello (relayId : Id) (relayRandom : Random)
  | clientAuth (role : Role) (peerId : Id) (clientRandom : Random) (signature : Bytes)
  | relayAuth (signature : Bytes)
  | sendPacket (dstId : Id) (payload : Bytes)
  | recvPacket (srcId : Id) (payload : Bytes)
  | peerGone (peerId : Id) (reason : Reason)
  | ping (token : Vector UInt8 TOKEN_LEN)
  | pong (token : Vector UInt8 TOKEN_LEN)
  | restarting (reconnectInMs tryForMs : UInt32)
  | close (reason : Reason)
  | peerPresent (nodeId : Id)
  | forward (srcId dstId : Id) (payload : Bytes)
  | reflectOffer (reflectKey : Vector UInt8 REFLECT_KEY_LEN) (endpoint : Vector UInt8 ENDPOINT_LEN)
  deriving DecidableEq

def T_RELAY_HELLO : UInt8 := 0x01
def T_CLIENT_AUTH : UInt8 := 0x02
def T_RELAY_AUTH : UInt8 := 0x03
def T_SEND_PACKET : UInt8 := 0x04
def T_RECV_PACKET : UInt8 := 0x05
def T_PEER_GONE : UInt8 := 0x06
def T_PING : UInt8 := 0x07
def T_PONG : UInt8 := 0x08
def T_RESTARTING : UInt8 := 0x09
def T_CLOSE : UInt8 := 0x0a
def T_PEER_PRESENT : UInt8 := 0x0b
def T_FORWARD : UInt8 := 0x0c
def T_REFLECT_OFFER : UInt8 := 0x0d

namespace Frame

def frameType : Frame → UInt8
  | .relayHello _ _ => T_RELAY_HELLO
  | .clientAuth _ _ _ _ => T_CLIENT_AUTH
  | .relayAuth _ => T_RELAY_AUTH
  | .sendPacket _ _ => T_SEND_PACKET
  | .recvPacket _ _ => T_RECV_PACKET
  | .peerGone _ _ => T_PEER_GONE
  | .ping _ => T_PING
  | .pong _ => T_PONG
  | .restarting _ _ => T_RESTARTING
  | .close _ => T_CLOSE
  | .peerPresent _ => T_PEER_PRESENT
  | .forward _ _ _ => T_FORWARD
  | .reflectOffer _ _ => T_REFLECT_OFFER

def body : Frame → Bytes
  | .relayHello relayId relayRandom => VERSION :: (relayId.toList ++ relayRandom.toList)
  | .clientAuth role peerId clientRandom signature =>
    VERSION :: role.toWire :: (peerId.toList ++ (clientRandom.toList ++ signature))
  | .relayAuth signature => VERSION :: signature
  | .sendPacket id payload => id.toList ++ payload
  | .recvPacket id payload => id.toList ++ payload
  | .peerGone peerId reason => peerId.toList ++ [reason.toWire]
  | .ping token => token.toList
  | .pong token => token.toList
  | .restarting reconnectInMs tryForMs =>
    beBytes 4 reconnectInMs.toNat ++ beBytes 4 tryForMs.toNat
  | .close reason => [reason.toWire]
  | .peerPresent nodeId => nodeId.toList
  | .forward srcId dstId payload => srcId.toList ++ (dstId.toList ++ payload)
  | .reflectOffer reflectKey endpoint => reflectKey.toList ++ endpoint.toList

/-- Append the encoded frame.  Of the length, written after the fact, the three low bytes are. -/
def encode (f : Frame) (out : Bytes) : Bytes :=
  out ++ f.frameType :: (beBytes 3 f.body.length ++ f.body)

def toVec (f : Frame) : Bytes := f.encode []

def encodedLen (f : Frame) : ℕ :=
  FRAME_HEADER + match f with
    | .relayHello _ _ => RELAY_HELLO_LEN
    | .clientAuth _ _ _ signature => CLIENT_AUTH_LEN - SIG_LEN + signature.length
    | .relayAuth signature => RELAY_AUTH_LEN - SIG_LEN + signature.length
    | .sendPacket _ payload => ID_LEN + payload.length
    | .recvPacket _ payload => ID_LEN + payload.length
    | .peerGone _ _ => PEER_GONE_LEN
    | .ping _ => TOKEN_LEN
    | .pong _ => TOKEN_LEN
    | .restarting _ _ => RESTARTING_LEN
    | .close _ => 1
    | .peerPresent _ => ID_LEN
    | .forward _ _ payload => 2 * ID_LEN + payload.length
    | .reflectOffer _ _ => REFLECT_OFFER_LEN

/-- Signatures have their length, and a relayed payload is neither empty nor too long. -/
def WellFormed : Frame → Prop
  | .clientAuth _ _ _ signature => signature.length = SIG_LEN
  | .relayAuth signature => signature.length = SIG_LEN
  | .sendPacket _ payload => PAYLOAD_MIN ≤ payload.length ∧ payload.length ≤ PAYLOAD_MAX
  | .recvPacket _ payload => PAYLOAD_MIN ≤ payload.length ∧ payload.length ≤ PAYLOAD_MAX
  | .forward _ _ payload => PAYLOAD_MIN ≤ payload.length ∧ payload.length ≤ PAYLOAD_MAX
  | _ => True

variable (f : Frame)

theorem encodedLen_eq : f.encodedLen = FRAME_HEADER + f.body.length := by
  cases f <;> simp [encodedLen, body, beBytes_length, RELAY_HELLO_LEN, CLIENT_AUTH_LEN, RELAY_AUTH_LEN,
    PEER_GONE_LEN, RESTARTING_LEN, REFLECT_OFFER_LEN] <;> omega

theorem toVec_eq : f.toVec = f.frameType :: (beBytes 3 f.body.length ++ f.body) := rfl

theorem toVec_length : f.toVec.length = f.encodedLen := by
  rw [encodedLen_eq, toVec_eq, length_cons, length_append, beBytes_length, FRAME_HEADER]
  omega

theorem body_length_le {f : Frame} (h : f.WellFormed) : f.body.length ≤ FRAME_PAYLOAD_MAX := by
  have hlen := f.encodedLen_eq
  have hconsts : SIG_LEN = 4627 ∧ PAYLOAD_MAX = 1336 ∧ ID_LEN = 32 ∧ FRAME_PAYLOAD_MAX = 8192 :=
    ⟨rfl, rfl, rfl, rfl⟩
  cases f with
  | clientAuth role i r sig =>
    have hsig : sig.length = SIG_LEN := h
    simp only [encodedLen, CLIENT_AUTH_LEN, RANDOM_LEN] at hlen
    omega
  | relayAuth sig =>
    have hsig : sig.length = SIG_LEN := h
    simp only [encodedLen, RELAY_AUTH_LEN] at hlen
    omega
  | sendPacket i payload =>
    have hmax : payload.length ≤ PAYLOAD_MAX := h.2
    simp only [encodedLen] at hlen
    omega
  | recvPacket i payload =>
    have hmax : payload.length ≤ PAYLOAD_MAX := h.2
    simp only [encodedLen] at hlen
    omega
  | forward src dst payload =>
    have hmax : payload.length ≤ PAYLOAD_MAX := h.2
    simp only [encodedLen] at hlen
    omega
  | _ =>
    simp only [encodedLen, RELAY_HELLO_LEN, PEER_GONE_LEN, TOKEN_LEN, RESTARTING_LEN, RANDOM_LEN,
      REFLECT_OFFER_LEN, REFLECT_KEY_LEN, ENDPOINT_LEN] at hlen
    omega

end Frame

/-! ### Decoding -/

def take (n : ℕ) (buf : Bytes) : Option (Vector UInt8 n × Bytes) :=
  (firstChunk n buf).map fun v => (v, buf.drop n)

theorem take_eq_some {n : ℕ} {buf rest : Bytes} {v : Vector UInt8 n} :
    take n buf = some (v, rest) ↔ buf = v.toList ++ rest := by
  unfold take
  constructor
  · intro h
    obtain ⟨w, hw, heq⟩ := map_eq_some_iff.mp h
    obtain ⟨rfl, rfl⟩ := Prod.mk.inj heq
    obtain ⟨rest, rfl⟩ := firstChunk_eq_some_iff.mp hw
    rw [drop_left' (by simp)]
  · intro h
    subst h
    rw [firstChunk_append, map_some, drop_left' (by simp)]

def checkPayload (frameType : UInt8) (payload : Bytes) : Except Error Unit :=
  if payload.length < PAYLOAD_MIN ∨ PAYLOAD_MAX < payload.length then
    .error (.badFrameLength frameType payload.length)
  else .ok ()

def checkVersion (b : UInt8) : Except Error Unit :=
  if b = VERSION then .ok () else .error (.badVersion b)

section

variable (badLen : Error) (p : Bytes)

def decodeRelayHello : Except Error Frame :=
  if p.length ≠ RELAY_HELLO_LEN then .error badLen else do
  let (version, rest) ← okOr badLen (take 1 p)
  checkVersion version[0]
  let (relayId, rest) ← okOr badLen (take ID_LEN rest)
  let (relayRandom, _) ← okOr badLen (take RANDOM_LEN rest)
  return .relayHello relayId relayRandom

def decodeClientAuth : Except Error Frame :=
  if p.length ≠ CLIENT_AUTH_LEN then .error badLen else do
  let (head, rest) ← okOr badLen (take 2 p)
  checkVersion head[0]
  let role ← Role.fromWire head[1]
  let (peerId, rest) ← okOr badLen (take ID_LEN rest)
  let (clientRandom, signature) ← okOr badLen (take RANDOM_LEN rest)
  return .clientAuth role peerId clientRandom signature

def decodeRelayAuth : Except Error Frame :=
  if p.length ≠ RELAY_AUTH_LEN then .error badLen else do
  let (version, signature) ← okOr badLen (take 1 p)
  checkVersion version[0]
  return .relayAuth signature

/-- `SendPacket` and `RecvPacket`. -/
def decodePacket (frameType : UInt8) (make : Id → Bytes → Frame) : Except Error Frame := do
  let (id, payload) ← okOr badLen (take ID_LEN p)
  checkPayload frameType payload
  return make id payload

def decodePeerGone : Except Error Frame :=
  if p.length ≠ PEER_GONE_LEN then .error badLen else do
  let (peerId, rest) ← okOr badLen (take ID_LEN p)
  let (reason, _) ← okOr badLen (take 1 rest)
  let reason ← Reason.fromWire reason[0]
  return .peerGone peerId reason

def exactly (n : ℕ) : Except Error (Vector UInt8 n) :=
  okOr badLen ((firstChunk n p).filter fun _ => p.length == n)

def decodeRestarting : Except Error Frame :=
  if p.length ≠ RESTARTING_LEN then .error badLen else do
  let (a, rest) ← okOr badLen (take 4 p)
  let (b, _) ← okOr badLen (take 4 rest)
  return .restarting (UInt32.ofNat (beValue a.toList)) (UInt32.ofNat (beValue b.toList))

def decodeClose : Except Error Frame := do
  let byte ← exactly badLen p 1
  let reason ← Reason.fromWire byte[0]
  return .close reason

def decodeForward (frameType : UInt8) : Except Error Frame := do
  let (srcId, rest) ← okOr badLen (take ID_LEN p)
  let (dstId, payload) ← okOr badLen (take ID_LEN rest)
  checkPayload frameType payload
  return .forward srcId dstId payload

def decodeReflectOffer : Except Error Frame :=
  if p.length ≠ REFLECT_OFFER_LEN then .error badLen else do
  let (reflectKey, rest) ← okOr badLen (take REFLECT_KEY_LEN p)
  let (endpoint, _) ← okOr badLen (take ENDPOINT_LEN rest)
  return .reflectOffer reflectKey endpoint

end

def decodePayload (frameType : UInt8) (p : Bytes) : Except Error Frame :=
  let badLen := Error.badFrameLength frameType p.length
  if frameType = T_RELAY_HELLO then decodeRelayHello badLen p
  else if frameType = T_CLIENT_AUTH then decodeClientAuth badLen p
  else if frameType = T_RELAY_AUTH then decodeRelayAuth badLen p
  else if frameType = T_SEND_PACKET then decodePacket badLen p frameType .sendPacket
  else if frameType = T_RECV_PACKET then decodePacket badLen p frameType .recvPacket
  else if frameType = T_PEER_GONE then decodePeerGone badLen p
  else if frameType = T_PING then (exactly badLen p TOKEN_LEN).map .ping
  else if frameType = T_PONG then (exactly badLen p TOKEN_LEN).map .pong
  else if frameType = T_RESTARTING then decodeRestarting badLen p
  else if frameType = T_CLOSE then decodeClose badLen p
  else if frameType = T_PEER_PRESENT then (exactly badLen p ID_LEN).map .peerPresent
  else if frameType = T_FORWARD then decodeForward badLen p frameType
  else if frameType = T_REFLECT_OFFER then decodeReflectOffer badLen p
  else .error (.unknownFrameType frameType)

/-- The length is checked before the payload is waited for. -/
def decodeAfterHeader (frameType : UInt8) (len : ℕ) (body : Bytes) :
    Except Error (Option (Frame × ℕ)) :=
  if FRAME_PAYLOAD_MAX < len then .error (.frameTooLarge len) else
  match cut len body with
  | none => .ok none
  | some (payload, _) => do
    let frame ← decodePayload frameType payload
    return some (frame, FRAME_HEADER + len)

def decode : Bytes → Except Error (Option (Frame × ℕ))
  | frameType :: l0 :: l1 :: l2 :: body => decodeAfterHeader frameType (beValue [l0, l1, l2]) body
  | _ => .ok none

/-! ### What is decoded -/

theorem toList_one (v : Vector UInt8 1) : v.toList = [v[0]] := by
  obtain ⟨b, hb⟩ := length_eq_one_iff.mp (show v.toList.length = 1 by simp)
  have hget : v[0] = b := by
    have h := congrArg (fun l => l[0]?) hb
    simpa using h
  rw [hb, hget]

theorem toList_two (v : Vector UInt8 2) : v.toList = [v[0], v[1]] := by
  obtain ⟨a, b, hab⟩ := length_eq_two.mp (show v.toList.length = 2 by simp)
  have h₀ : v[0] = a := by
    have h := congrArg (fun l => l[0]?) hab
    simpa using h
  have h₁ : v[1] = b := by
    have h := congrArg (fun l => l[1]?) hab
    simpa using h
  rw [hab, h₀, h₁]

theorem checkVersion_eq_ok {b : UInt8} {u : Unit} : checkVersion b = .ok u ↔ b = VERSION := by
  unfold checkVersion
  split <;> simp_all

theorem checkPayload_eq_ok {frameType : UInt8} {payload : Bytes} {u : Unit} :
    checkPayload frameType payload = .ok u ↔ PAYLOAD_MIN ≤ payload.length ∧ payload.length ≤ PAYLOAD_MAX := by
  rw [checkPayload, guard_eq_ok, and_iff_left rfl]
  omega

section

variable {badLen : Error} {p : Bytes} {f : Frame}

theorem exactly_eq_ok {n : ℕ} {v : Vector UInt8 n} : exactly badLen p n = .ok v ↔ p = v.toList := by
  rw [exactly, okOr_eq_ok, filter_eq_some_iff, firstChunk_eq_some_iff, beq_iff_eq]
  constructor
  · intro h
    obtain ⟨⟨rest, rfl⟩, hlen⟩ := h
    have hrest : rest = [] := by
      rw [length_append, Vector.length_toList] at hlen
      exact length_eq_zero_iff.mp (by omega)
    rw [hrest, append_nil]
  · intro h
    subst h
    exact ⟨⟨[], (append_nil _).symm⟩, Vector.length_toList⟩

theorem exactly_map_eq_ok {n : ℕ} {make : Vector UInt8 n → Frame} :
    (exactly badLen p n).map make = .ok f ↔ ∃ v, f = make v ∧ p = v.toList := by
  rw [map_eq_ok]
  refine exists_congr fun v => ?_
  rw [exactly_eq_ok, and_comm, eq_comm]

theorem decodeRelayHello_eq_ok : decodeRelayHello badLen p = .ok f
    ↔ ∃ relayId relayRandom, f = .relayHello relayId relayRandom
      ∧ p = (Frame.relayHello relayId relayRandom).body := by
  simp only [decodeRelayHello, guard_eq_ok, not_not, bind_eq_ok, okOr_eq_ok, Prod.exists, take_eq_some,
    checkVersion_eq_ok]
  constructor
  · intro h
    obtain ⟨hlen, v, rest, rfl, -, hv, i, rest₁, rfl, r, rest₂, rfl, hf⟩ := h
    have hrest : rest₂ = [] := by
      simp only [length_append, Vector.length_toList, RELAY_HELLO_LEN] at hlen
      exact length_eq_zero_iff.mp (by omega)
    refine ⟨i, r, (ok.inj hf).symm, ?_⟩
    rw [toList_one, hv, hrest, append_nil]
    rfl
  · intro h
    obtain ⟨i, r, rfl, rfl⟩ := h
    refine ⟨by simp [Frame.body, RELAY_HELLO_LEN]; omega, #v[VERSION], i.toList ++ r.toList, rfl, (),
      rfl, i, r.toList, rfl, r, [], (append_nil _).symm, rfl⟩

theorem decodeClientAuth_eq_ok : decodeClientAuth badLen p = .ok f
    ↔ ∃ role peerId clientRandom signature, f = .clientAuth role peerId clientRandom signature
      ∧ signature.length = SIG_LEN ∧ p = (Frame.clientAuth role peerId clientRandom signature).body := by
  simp only [decodeClientAuth, guard_eq_ok, not_not, bind_eq_ok, okOr_eq_ok, Prod.exists, take_eq_some,
    checkVersion_eq_ok, Role.fromWire_eq_ok]
  constructor
  · intro h
    obtain ⟨hlen, v, rest, rfl, -, hv, role, hrole, i, rest₁, rfl, r, sig, rfl, hf⟩ := h
    have hsig : sig.length = SIG_LEN := by
      simp only [length_append, Vector.length_toList, CLIENT_AUTH_LEN] at hlen
      omega
    refine ⟨role, i, r, sig, (ok.inj hf).symm, hsig, ?_⟩
    rw [toList_two, hv, hrole]
    rfl
  · intro h
    obtain ⟨role, i, r, sig, rfl, hsig, rfl⟩ := h
    refine ⟨by simp [Frame.body, CLIENT_AUTH_LEN, hsig]; omega, #v[VERSION, role.toWire], _, rfl, (),
      rfl, role, rfl, i, _, rfl, r, sig, rfl, rfl⟩

theorem decodeRelayAuth_eq_ok : decodeRelayAuth badLen p = .ok f
    ↔ ∃ signature, f = .relayAuth signature ∧ signature.length = SIG_LEN
      ∧ p = (Frame.relayAuth signature).body := by
  simp only [decodeRelayAuth, guard_eq_ok, not_not, bind_eq_ok, okOr_eq_ok, Prod.exists, take_eq_some,
    checkVersion_eq_ok]
  constructor
  · intro h
    obtain ⟨hlen, v, sig, rfl, -, hv, hf⟩ := h
    have hsig : sig.length = SIG_LEN := by
      simp only [length_append, Vector.length_toList, RELAY_AUTH_LEN] at hlen
      omega
    refine ⟨sig, (ok.inj hf).symm, hsig, ?_⟩
    rw [toList_one, hv]
    rfl
  · intro h
    obtain ⟨sig, rfl, hsig, rfl⟩ := h
    exact ⟨by simp [Frame.body, RELAY_AUTH_LEN, hsig]; omega, #v[VERSION], sig, rfl, (), rfl, rfl⟩

variable {frameType : UInt8}

theorem decodePacket_eq_ok {make : Id → Bytes → Frame} : decodePacket badLen p frameType make = .ok f
      ↔ ∃ id payload, f = make id payload ∧ (PAYLOAD_MIN ≤ payload.length ∧ payload.length ≤ PAYLOAD_MAX)
        ∧ p = id.toList ++ payload := by
  simp only [decodePacket, bind_eq_ok, okOr_eq_ok, Prod.exists, take_eq_some, checkPayload_eq_ok]
  refine exists_congr fun id => exists_congr fun payload => ?_
  constructor
  · intro h
    obtain ⟨hp, -, hpayload, hf⟩ := h
    exact ⟨(ok.inj hf).symm, hpayload, hp⟩
  · intro h
    obtain ⟨rfl, hpayload, hp⟩ := h
    exact ⟨hp, (), hpayload, rfl⟩

theorem decodePeerGone_eq_ok : decodePeerGone badLen p = .ok f
    ↔ ∃ peerId reason, f = .peerGone peerId reason ∧ p = (Frame.peerGone peerId reason).body := by
  simp only [decodePeerGone, guard_eq_ok, not_not, bind_eq_ok, okOr_eq_ok, Prod.exists, take_eq_some,
    Reason.fromWire_eq_ok]
  constructor
  · intro h
    obtain ⟨hlen, i, rest, rfl, v, rest₁, rfl, reason, hreason, hf⟩ := h
    have hrest : rest₁ = [] := by
      simp only [length_append, Vector.length_toList, PEER_GONE_LEN] at hlen
      exact length_eq_zero_iff.mp (by omega)
    refine ⟨i, reason, (ok.inj hf).symm, ?_⟩
    rw [toList_one, hreason, hrest, append_nil]
    rfl
  · intro h
    obtain ⟨i, reason, rfl, rfl⟩ := h
    exact ⟨by simp [Frame.body, PEER_GONE_LEN], i, _, rfl, #v[reason.toWire], [], rfl, reason, rfl, rfl⟩

theorem decodeRestarting_eq_ok : decodeRestarting badLen p = .ok f
    ↔ ∃ reconnectInMs tryForMs, f = .restarting reconnectInMs tryForMs
      ∧ p = (Frame.restarting reconnectInMs tryForMs).body := by
  simp only [decodeRestarting, guard_eq_ok, not_not, bind_eq_ok, okOr_eq_ok, Prod.exists, take_eq_some]
  constructor
  · intro h
    obtain ⟨hlen, a, rest, rfl, b, rest₁, rfl, hf⟩ := h
    have hrest : rest₁ = [] := by
      simp only [length_append, Vector.length_toList, RESTARTING_LEN] at hlen
      exact length_eq_zero_iff.mp (by omega)
    refine ⟨_, _, (ok.inj hf).symm, ?_⟩
    show a.toList ++ (b.toList ++ rest₁) = beBytes 4 _ ++ beBytes 4 _
    rw [beBytes_uint32 Vector.length_toList, beBytes_uint32 Vector.length_toList, hrest, append_nil]
  · intro h
    obtain ⟨a, b, rfl, rfl⟩ := h
    have hfour (x : UInt32) : (fit 4 (beBytes 4 x.toNat)).toList = beBytes 4 x.toNat :=
      toList_fit (beBytes_length 4 _)
    refine ⟨by simp [Frame.body, beBytes_length, RESTARTING_LEN], fit 4 (beBytes 4 a.toNat),
      beBytes 4 b.toNat, by rw [hfour]; rfl, fit 4 (beBytes 4 b.toNat), [], by
        rw [hfour, append_nil], ?_⟩
    rw [hfour, hfour, uint32_beBytes, uint32_beBytes]
    rfl

theorem decodeClose_eq_ok : decodeClose badLen p = .ok f
    ↔ ∃ reason, f = .close reason ∧ p = (Frame.close reason).body := by
  simp only [decodeClose, bind_eq_ok, exactly_eq_ok, Reason.fromWire_eq_ok]
  constructor
  · intro h
    obtain ⟨v, rfl, reason, hreason, hf⟩ := h
    refine ⟨reason, (ok.inj hf).symm, ?_⟩
    rw [toList_one, hreason]
    rfl
  · intro h
    obtain ⟨reason, rfl, rfl⟩ := h
    exact ⟨#v[reason.toWire], rfl, reason, rfl, rfl⟩

theorem decodeForward_eq_ok : decodeForward badLen p frameType = .ok f
    ↔ ∃ srcId dstId payload, f = .forward srcId dstId payload
      ∧ (PAYLOAD_MIN ≤ payload.length ∧ payload.length ≤ PAYLOAD_MAX)
      ∧ p = (Frame.forward srcId dstId payload).body := by
  simp only [decodeForward, bind_eq_ok, okOr_eq_ok, Prod.exists, take_eq_some, checkPayload_eq_ok]
  constructor
  · intro h
    obtain ⟨src, rest, rfl, dst, payload, rfl, -, hpayload, hf⟩ := h
    exact ⟨src, dst, payload, (ok.inj hf).symm, hpayload, rfl⟩
  · intro h
    obtain ⟨src, dst, payload, rfl, hpayload, rfl⟩ := h
    exact ⟨src, _, rfl, dst, payload, rfl, (), hpayload, rfl⟩

theorem decodeReflectOffer_eq_ok : decodeReflectOffer badLen p = .ok f
    ↔ ∃ reflectKey endpoint, f = .reflectOffer reflectKey endpoint
      ∧ p = (Frame.reflectOffer reflectKey endpoint).body := by
  simp only [decodeReflectOffer, guard_eq_ok, not_not, bind_eq_ok, okOr_eq_ok, Prod.exists, take_eq_some]
  constructor
  · intro h
    obtain ⟨hlen, k, rest, rfl, e, rest₁, rfl, hf⟩ := h
    have hrest : rest₁ = [] := by
      simp only [length_append, Vector.length_toList, REFLECT_OFFER_LEN] at hlen
      exact length_eq_zero_iff.mp (by omega)
    refine ⟨k, e, (ok.inj hf).symm, ?_⟩
    rw [hrest, append_nil]
    rfl
  · intro h
    obtain ⟨k, e, rfl, rfl⟩ := h
    exact ⟨by simp [Frame.body, REFLECT_OFFER_LEN], k, _, rfl, e, [], (append_nil _).symm, rfl⟩

/-- **Payloads.**  A payload is read as a frame exactly if it is that frame's, under its type. -/
theorem decodePayload_eq_ok :
    decodePayload frameType p = .ok f ↔ f.frameType = frameType ∧ f.WellFormed ∧ p = f.body := by
  constructor
  · intro h
    unfold decodePayload at h
    -- one type after the other
    rcases ite_eq_iff.mp h with ⟨htype, h⟩ | ⟨-, h⟩
    · obtain ⟨i, r, rfl, hp⟩ := decodeRelayHello_eq_ok.mp h
      exact ⟨htype.symm, trivial, hp⟩
    rcases ite_eq_iff.mp h with ⟨htype, h⟩ | ⟨-, h⟩
    · obtain ⟨role, i, r, sig, rfl, hsig, hp⟩ := decodeClientAuth_eq_ok.mp h
      exact ⟨htype.symm, hsig, hp⟩
    rcases ite_eq_iff.mp h with ⟨htype, h⟩ | ⟨-, h⟩
    · obtain ⟨sig, rfl, hsig, hp⟩ := decodeRelayAuth_eq_ok.mp h
      exact ⟨htype.symm, hsig, hp⟩
    rcases ite_eq_iff.mp h with ⟨htype, h⟩ | ⟨-, h⟩
    · obtain ⟨i, payload, rfl, hpayload, hp⟩ := decodePacket_eq_ok.mp h
      exact ⟨htype.symm, hpayload, hp⟩
    rcases ite_eq_iff.mp h with ⟨htype, h⟩ | ⟨-, h⟩
    · obtain ⟨i, payload, rfl, hpayload, hp⟩ := decodePacket_eq_ok.mp h
      exact ⟨htype.symm, hpayload, hp⟩
    rcases ite_eq_iff.mp h with ⟨htype, h⟩ | ⟨-, h⟩
    · obtain ⟨i, reason, rfl, hp⟩ := decodePeerGone_eq_ok.mp h
      exact ⟨htype.symm, trivial, hp⟩
    rcases ite_eq_iff.mp h with ⟨htype, h⟩ | ⟨-, h⟩
    · obtain ⟨token, rfl, hp⟩ := exactly_map_eq_ok.mp h
      exact ⟨htype.symm, trivial, hp⟩
    rcases ite_eq_iff.mp h with ⟨htype, h⟩ | ⟨-, h⟩
    · obtain ⟨token, rfl, hp⟩ := exactly_map_eq_ok.mp h
      exact ⟨htype.symm, trivial, hp⟩
    rcases ite_eq_iff.mp h with ⟨htype, h⟩ | ⟨-, h⟩
    · obtain ⟨a, b, rfl, hp⟩ := decodeRestarting_eq_ok.mp h
      exact ⟨htype.symm, trivial, hp⟩
    rcases ite_eq_iff.mp h with ⟨htype, h⟩ | ⟨-, h⟩
    · obtain ⟨reason, rfl, hp⟩ := decodeClose_eq_ok.mp h
      exact ⟨htype.symm, trivial, hp⟩
    rcases ite_eq_iff.mp h with ⟨htype, h⟩ | ⟨-, h⟩
    · obtain ⟨i, rfl, hp⟩ := exactly_map_eq_ok.mp h
      exact ⟨htype.symm, trivial, hp⟩
    rcases ite_eq_iff.mp h with ⟨htype, h⟩ | ⟨-, h⟩
    · obtain ⟨src, dst, payload, rfl, hpayload, hp⟩ := decodeForward_eq_ok.mp h
      exact ⟨htype.symm, hpayload, hp⟩
    rcases ite_eq_iff.mp h with ⟨htype, h⟩ | ⟨-, h⟩
    · obtain ⟨k, e, rfl, hp⟩ := decodeReflectOffer_eq_ok.mp h
      exact ⟨htype.symm, trivial, hp⟩
    · cases h
  · intro h
    obtain ⟨rfl, hwf, rfl⟩ := h
    cases f with
    | relayHello i r => exact decodeRelayHello_eq_ok.mpr ⟨i, r, rfl, rfl⟩
    | clientAuth role i r sig => exact decodeClientAuth_eq_ok.mpr ⟨role, i, r, sig, rfl, hwf, rfl⟩
    | relayAuth sig => exact decodeRelayAuth_eq_ok.mpr ⟨sig, rfl, hwf, rfl⟩
    | sendPacket i payload => exact decodePacket_eq_ok.mpr ⟨i, payload, rfl, hwf, rfl⟩
    | recvPacket i payload => exact decodePacket_eq_ok.mpr ⟨i, payload, rfl, hwf, rfl⟩
    | peerGone i reason => exact decodePeerGone_eq_ok.mpr ⟨i, reason, rfl, rfl⟩
    | ping token => exact exactly_map_eq_ok.mpr ⟨token, rfl, rfl⟩
    | pong token => exact exactly_map_eq_ok.mpr ⟨token, rfl, rfl⟩
    | restarting a b => exact decodeRestarting_eq_ok.mpr ⟨a, b, rfl, rfl⟩
    | close reason => exact decodeClose_eq_ok.mpr ⟨reason, rfl, rfl⟩
    | peerPresent i => exact exactly_map_eq_ok.mpr ⟨i, rfl, rfl⟩
    | forward src dst payload => exact decodeForward_eq_ok.mpr ⟨src, dst, payload, rfl, hwf, rfl⟩
    | reflectOffer k e => exact decodeReflectOffer_eq_ok.mpr ⟨k, e, rfl, rfl⟩

end

/-! ### Streams -/

theorem decode_header (frameType : UInt8) {l : Bytes} (hl : l.length = 3) (body : Bytes) :
    decode (frameType :: (l ++ body)) = decodeAfterHeader frameType (beValue l) body := by
  obtain ⟨l0, l1, l2, rfl⟩ := length_eq_three.mp hl
  rfl

variable {buf : Bytes}

theorem exists_header (h : FRAME_HEADER ≤ buf.length) :
    ∃ frameType l body, buf = frameType :: (l ++ body) ∧ l.length = 3 := by
  cases buf with
  | nil => exact absurd h (by decide)
  | cons frameType rest =>
    have hrest : 3 + 0 ≤ rest.length := Nat.le_of_succ_le_succ h
    obtain ⟨l, body, rfl, hl, -⟩ := exists_cut hrest
    exact ⟨frameType, l, body, rfl, hl⟩

theorem decode_short (h : buf.length < FRAME_HEADER) : decode buf = .ok none := by
  unfold decode
  split
  · simp only [length_cons, FRAME_HEADER] at h
    omega
  · rfl

theorem length_header {n : ℕ} (h : n ≤ FRAME_PAYLOAD_MAX) : beValue (beBytes 3 n) = n := by
  refine beValue_beBytes ?_
  have hmax : FRAME_PAYLOAD_MAX < 256 ^ 3 := by decide
  omega

theorem decode_eq_some {f : Frame} {used : ℕ} : decode buf = .ok (some (f, used))
      ↔ f.WellFormed ∧ used = f.encodedLen ∧ ∃ rest, buf = f.toVec ++ rest := by
  constructor
  · intro h
    have hheader : FRAME_HEADER ≤ buf.length := by
      by_contra hshort
      rw [decode_short (Nat.not_le.mp hshort)] at h
      cases h
    obtain ⟨frameType, l, body, rfl, hl⟩ := exists_header hheader
    rw [decode_header frameType hl, decodeAfterHeader, guard_eq_ok] at h
    obtain ⟨-, h⟩ := h
    cases hcut : cut (beValue l) body with
    | none =>
      rw [hcut] at h
      cases h
    | some x =>
      obtain ⟨payload, rest⟩ := x
      rw [hcut] at h
      obtain ⟨frame, hframe, hsome⟩ := bind_eq_ok.mp h
      obtain ⟨rfl, rfl⟩ := Prod.mk.inj (some.inj (ok.inj hsome))
      obtain ⟨rfl, hwf, rfl⟩ := decodePayload_eq_ok.mp hframe
      obtain ⟨rfl, hlen⟩ := cut_eq_some_iff.mp hcut
      refine ⟨hwf, by rw [frame.encodedLen_eq, hlen], rest, ?_⟩
      rw [frame.toVec_eq, hlen, beBytes_beValue hl]
      simp only [cons_append, append_assoc]
  · intro h
    obtain ⟨hwf, rfl, rest, rfl⟩ := h
    have hmax := Frame.body_length_le hwf
    rw [f.toVec_eq, cons_append, append_assoc, decode_header _ (beBytes_length 3 _),
      length_header hmax, decodeAfterHeader, if_neg (Nat.not_lt.mpr hmax), cut_append rfl]
    show (decodePayload f.frameType f.body >>= _) = _
    rw [decodePayload_eq_ok.mpr ⟨rfl, hwf, rfl⟩, f.encodedLen_eq]
    rfl

theorem decode_incomplete {f : Frame} {front rest : Bytes} (hf : f.WellFormed)
    (hfront : f.toVec = front ++ rest) (hrest : rest ≠ []) : decode front = .ok none := by
  rcases Nat.lt_or_ge front.length FRAME_HEADER with hshort | hheader
  · exact decode_short hshort
  · obtain ⟨frameType, l, body, rfl, hl⟩ := exists_header hheader
    have hmax := Frame.body_length_le hf
    rw [f.toVec_eq, cons_append, append_assoc] at hfront
    obtain ⟨-, htail⟩ := cons.inj hfront
    obtain ⟨rfl, hbody⟩ := append_inj htail (by rw [beBytes_length, hl])
    have hlt : body.length < f.body.length := by
      have hpos := length_pos_iff.mpr hrest
      rw [hbody, length_append]
      omega
    rw [decode_header frameType hl, length_header hmax, decodeAfterHeader,
      if_neg (Nat.not_lt.mpr hmax), cut, if_neg (Nat.not_le.mpr hlt)]

theorem frames_decode : Framing.Frames decode Frame.toVec Frame.WellFormed where
  complete := by
    intro f rest hf
    rw [f.toVec_length]
    exact decode_eq_some.mpr ⟨hf, rfl, rest, rfl⟩
  incomplete := fun f front rest hf => decode_incomplete hf
  empty := rfl
  nonempty := fun f => cons_ne_nil _ _

/-- **The stream codec.**  Frames are received as they were written, however the bytes are cut. -/
theorem stream_codec : (∀ (f : Frame) rest, f.WellFormed →
      decode (f.toVec ++ rest) = .ok (some (f, f.toVec.length)) ∧ f.toVec.length = f.encodedLen)
      ∧ (∀ (f : Frame) front, f.WellFormed → front <+: f.toVec → front ≠ f.toVec → decode front = .ok none)
      ∧ (∀ buf f used, decode buf = .ok (some (f, used)) →
        f.WellFormed ∧ used ≤ buf.length ∧ f.toVec = buf.take used)
      ∧ ∀ (fs : List Frame) chunks, (∀ f ∈ fs, f.WellFormed) → chunks.flatten = (fs.map Frame.toVec).flatten →
        Framing.receive decode [] chunks = .ok (fs, []) := by
  refine ⟨?_, ?_, ?_, ?_⟩
  · intro f rest hf
    exact ⟨frames_decode.complete f rest hf, f.toVec_length⟩
  · intro f front hf hfront hne
    obtain ⟨rest, hrest⟩ := hfront
    refine decode_incomplete hf hrest.symm ?_
    intro hnil
    rw [hnil, append_nil] at hrest
    exact hne hrest
  · intro buf f used h
    obtain ⟨hf, rfl, rest, rfl⟩ := decode_eq_some.mp h
    rw [← f.toVec_length, take_left, length_append]
    exact ⟨hf, Nat.le_add_right _ _, rfl⟩
  · intro fs chunks hfs hchunks
    exact Framing.receive_flatten frames_decode hfs hchunks

end Karst.Relay
