import Karst.Foundations.Fallible
import Karst.Noise.SymmetricState

/-!
# The `PHREATIC` handshake

`initiate`, `Initiator::try_finish` and `respond` of `karst-noise/src/handshake.rs`.  The reader's
position is the rest of the byte string, so a `take` past the end and a message with bytes left
over are the two framing errors.  The three functions are translated with their checks in the
source's order; `respond` is cut in two at its call of `lookup` (`openInit`, `answer`).
-/

namespace Karst.Noise

open Crypto MixScript SymmetricState

def HINT_LEN : ℕ := 32
def TIMESTAMP_LEN : ℕ := 12

inductive HandshakeError where
  | malformed
  | unsupportedSuite
  | unknownPeer
  | authenticationFailed

variable (P : Primitives)

structure StaticKeys where
  kemSk : P.SecretKey
  kemPk : P.PublicKey

structure PeerPublic where
  kemPk : P.PublicKey
  psk : Vector UInt8 32

variable {P}

/-- `peer_id_hint = SHA-512("Karst peer-id v1" ‖ S_pk)[0..32]`. -/
def peerIdHint (P : Primitives) (kemPkBytes : Bytes) : Bytes :=
  (P.sha512 (ascii "Karst peer-id v1" ++ kemPkBytes)).take HINT_LEN

namespace StaticKeys

def hint (keys : StaticKeys P) : Bytes := peerIdHint P (P.toBytes keys.kemPk)

def Paired (keys : StaticKeys P) : Prop := P.Paired keys.kemSk keys.kemPk

end StaticKeys

/-- Keys the responder has derived but not yet confirmed. -/
structure Unconfirmed (α : Type*) where
  peek : α

/-- Consume on receipt of the first message that authenticates under these keys. -/
def Unconfirmed.confirm {α : Type*} (u : Unconfirmed α) : α := u.peek

structure SessionParams where
  pskEpoch : UInt32
  senderIndex : UInt32

structure InitiatorRandomness where
  eKemSeed : Vector UInt8 64
  encapRand : Vector UInt8 32
  timestamp : Vector UInt8 TIMESTAMP_LEN

structure ResponderRandomness where
  encapRandE : Vector UInt8 32
  encapRandS : Vector UInt8 32

/-- Initiator state between sending `HandshakeInit` and receiving the response. -/
structure Initiator (P : Primitives) where
  state : SymmetricState
  eKemSk : P.SecretKey
  keys : StaticKeys P
  peer : PeerPublic P

/-- The reader: `n` bytes off the front of what is left. -/
def take (n : ℕ) (rest : Bytes) : Except HandshakeError (Bytes × Bytes) :=
  okOr .malformed (cut n rest)

/-! ### Initiator -/

def initHeader (params : SessionParams) : Bytes :=
  [0x01] ++ [0, 0, 0] ++ leBytes 4 params.senderIndex.toNat ++ leBytes 2 SUITE_ID.toNat
    ++ leBytes 4 params.pskEpoch.toNat

def initiate (keys : StaticKeys P) (peer : PeerPublic P) (params : SessionParams)
    (rand : InitiatorRandomness) : Except HandshakeError (Initiator P × Bytes) := do
  let (eKemSk, eKemPk) := P.keypairFromSeed rand.eKemSeed
  let eKemPkBytes := P.toBytes eKemPk
  let header := initHeader params
  let state := SymmetricState.new P
  -- header and responder identity before any secret material
  let state := mixHash P state header
  let sR := P.sha384 (P.toBytes peer.kemPk)
  let state := mixHash P state sR
  let state := mixHash P state eKemPkBytes
  let (ctS, ssS) := P.encapsulate peer.kemPk rand.encapRand
  let state := mixKey P state ssS
  let state := mixHash P state ctS
  let ident := keys.hint ++ rand.timestamp.toList
  let (state, encIdent) ← okOr .authenticationFailed (encryptAndHash P state ident)
  return (⟨state, eKemSk, keys, peer⟩, header ++ eKemPkBytes ++ ctS ++ encIdent)

structure Response where
  header : Bytes
  ctE : Bytes
  ctSs : Bytes
  encEmpty : Bytes

/-- The reads at the head of `try_finish`.  Reserved bytes and both indices are skipped; the header
is bound as received. -/
def Response.parse (msg : Bytes) : Except HandshakeError Response := do
  let (header, _) ← take 12 msg
  let (ty, r) ← take 1 msg
  if ty.head? ≠ some 0x02 then .error .malformed else
  let (_reserved, r) ← take 3 r
  let (_senderIndex, r) ← take 4 r
  let (_receiverIndex, r) ← take 4 r
  let (ctE, r) ← take KEM_CIPHERTEXT r
  let (ctSs, r) ← take KEM_CIPHERTEXT r
  let (encEmpty, r) ← take 16 r
  if r ≠ [] then .error .malformed else
  return ⟨header, ctE, ctSs, encEmpty⟩

/-- Try to complete the handshake without consuming the initiator. -/
def Initiator.tryFinish (self : Initiator P) (msg : Bytes) :
    Except HandshakeError TransportKeys := do
  let state := self.state
  let resp ← Response.parse msg
  let ssE ← okOr .malformed (P.decapsulate self.eKemSk resp.ctE)
  let state := mixKey P state ssE
  let state := mixHash P state resp.ctE
  let ssSs ← okOr .malformed (P.decapsulate self.keys.kemSk resp.ctSs)
  let state := mixKey P state ssSs
  let state := mixHash P state resp.ctSs
  -- PSK last, gating the final key
  let state := mixKeyAndHash P state self.peer.psk.toList
  let state := mixHash P state resp.header
  let (state, _) ← okOr .authenticationFailed (decryptAndHash P state resp.encEmpty)
  return state.split P

/-! ### Responder -/

structure Init where
  header : Bytes
  pskEpoch : UInt32
  eKemPkBytes : Bytes
  ctS : Bytes
  encIdent : Bytes

/-- The suite is accepted before any length-dependent field is read. -/
def Init.parse (msg : Bytes) : Except HandshakeError Init := do
  let (header, _) ← take 14 msg
  let (ty, r) ← take 1 msg
  if ty.head? ≠ some 0x01 then .error .malformed else
  let (_reserved, r) ← take 3 r
  let (_senderIndex, r) ← take 4 r
  let (suiteBytes, r) ← take 2 r
  let (pskEpochBytes, r) ← take 4 r
  if ¬ acceptsSuite (leValue suiteBytes) then .error .unsupportedSuite else
  let (eKemPkBytes, r) ← take KEM_PUBLIC_KEY r
  let (ctS, r) ← take KEM_CIPHERTEXT r
  let (encIdent, r) ← take (HINT_LEN + TIMESTAMP_LEN + 16) r
  if r ≠ [] then .error .malformed else
  return ⟨header, UInt32.ofNat (leValue pskEpochBytes), eKemPkBytes, ctS, encIdent⟩

/-- `respond` up to its call of `lookup`: the initiator's ephemeral key, the state, the hint. -/
def openInit (keys : StaticKeys P) (init : Init) :
    Except HandshakeError (P.PublicKey × SymmetricState × Bytes) := do
  let eKemPk ← okOr .malformed (P.fromBytes init.eKemPkBytes)
  let state := SymmetricState.new P
  let state := mixHash P state init.header
  let sR := P.sha384 (P.toBytes keys.kemPk)
  let state := mixHash P state sR
  let state := mixHash P state init.eKemPkBytes
  let ssS ← okOr .malformed (P.decapsulate keys.kemSk init.ctS)
  let state := mixKey P state ssS
  let state := mixHash P state init.ctS
  let (state, ident) ← okOr .authenticationFailed (decryptAndHash P state init.encIdent)
  let (hint, _) ← take HINT_LEN ident
  return (eKemPk, state, hint)

/-- The 12 header bytes of `HandshakeResponse`; the receiver index is always zero. -/
def responseHeader (senderIndex : UInt32) : Bytes :=
  [0x02] ++ [0, 0, 0] ++ leBytes 4 senderIndex.toNat ++ leBytes 4 0

def answer (eKemPk : P.PublicKey) (state : SymmetricState) (peer : PeerPublic P)
    (rand : ResponderRandomness) (senderIndex : UInt32) :
    Except HandshakeError (Bytes × Unconfirmed TransportKeys) := do
  let (ctE, ssE) := P.encapsulate eKemPk rand.encapRandE
  let state := mixKey P state ssE
  let state := mixHash P state ctE
  let (ctSs, ssSs) := P.encapsulate peer.kemPk rand.encapRandS
  let state := mixKey P state ssSs
  let state := mixHash P state ctSs
  let state := mixKeyAndHash P state peer.psk.toList
  let outHeader := responseHeader senderIndex
  let state := mixHash P state outHeader
  let (state, encEmpty) ← okOr .authenticationFailed (encryptAndHash P state [])
  return (outHeader ++ ctE ++ ctSs ++ encEmpty, ⟨state.split P⟩)

/-- How a responder resolves a hint and a PSK epoch. -/
abbrev Lookup (P : Primitives) := Bytes → UInt32 → Option (PeerPublic P)

/-- Consume `HandshakeInit`, produce `HandshakeResponse` and unconfirmed keys. -/
def respond (keys : StaticKeys P) (msg : Bytes) (lookup : Lookup P)
    (rand : ResponderRandomness) (senderIndex : UInt32) :
    Except HandshakeError (Bytes × Unconfirmed TransportKeys) := do
  let init ← Init.parse msg
  let (eKemPk, state, hint) ← openInit keys init
  let peer ← okOr .unknownPeer (lookup hint init.pskEpoch)
  answer eKemPk state peer rand senderIndex

/-! ### Framing -/

theorem take_append {n : ℕ} {a b : Bytes} (h : a.length = n) : take n (a ++ b) = .ok (a, b) := by
  rw [take, cut_append h, okOr_some]

theorem take_eq_ok {n : ℕ} {b x y : Bytes} : take n b = .ok (x, y) ↔ b = x ++ y ∧ x.length = n := by
  rw [take, okOr_eq_ok, cut_eq_some_iff]

theorem take_type (b : UInt8) (rest : Bytes) : take 1 ([b] ++ rest) = .ok ([b], rest) :=
  take_append rfl

theorem Response.parse_append {reserved si ri ctE ctSs encEmpty : Bytes} (h1 : reserved.length = 3)
    (h2 : si.length = 4) (h3 : ri.length = 4) (h4 : ctE.length = KEM_CIPHERTEXT)
    (h5 : ctSs.length = KEM_CIPHERTEXT) (h6 : encEmpty.length = 16) :
    parse ([0x02] ++ reserved ++ si ++ ri ++ ctE ++ ctSs ++ encEmpty)
      = .ok ⟨[0x02] ++ reserved ++ si ++ ri, ctE, ctSs, encEmpty⟩ := by
  have hheader : ([0x02] ++ reserved ++ si ++ ri : Bytes).length = 12 := by simp [h1, h2, h3]
  have hall : ([0x02] ++ reserved ++ si ++ ri ++ ctE ++ ctSs ++ encEmpty : Bytes)
      = ([0x02] ++ reserved ++ si ++ ri) ++ (ctE ++ ctSs ++ encEmpty) := by simp
  have htype : ([0x02] ++ reserved ++ si ++ ri ++ ctE ++ ctSs ++ encEmpty : Bytes)
      = [0x02] ++ (reserved ++ (si ++ (ri ++ (ctE ++ (ctSs ++ (encEmpty ++ [])))))) := by simp
  unfold parse
  rw [hall, take_append hheader, ← hall, htype]
  simp only [ok_bind, take_type, take_append, h1, h2, h3, h4, h5, h6, List.head?_cons, ne_eq,
    not_true_eq_false, if_false]
  rfl

theorem Init.parse_append {reserved si suite epoch eKemPk ctS encIdent : Bytes}
    (h1 : reserved.length = 3) (h2 : si.length = 4) (h3 : suite.length = 2)
    (h4 : epoch.length = 4) (hs : acceptsSuite (leValue suite) = true)
    (h5 : eKemPk.length = KEM_PUBLIC_KEY) (h6 : ctS.length = KEM_CIPHERTEXT)
    (h7 : encIdent.length = HINT_LEN + TIMESTAMP_LEN + 16) :
    parse ([0x01] ++ reserved ++ si ++ suite ++ epoch ++ eKemPk ++ ctS ++ encIdent)
      = .ok ⟨[0x01] ++ reserved ++ si ++ suite ++ epoch, UInt32.ofNat (leValue epoch), eKemPk, ctS,
          encIdent⟩ := by
  have hheader : ([0x01] ++ reserved ++ si ++ suite ++ epoch : Bytes).length = 14 := by
    simp [h1, h2, h3, h4]
  have hall : ([0x01] ++ reserved ++ si ++ suite ++ epoch ++ eKemPk ++ ctS ++ encIdent : Bytes)
      = ([0x01] ++ reserved ++ si ++ suite ++ epoch) ++ (eKemPk ++ ctS ++ encIdent) := by simp
  have htype : ([0x01] ++ reserved ++ si ++ suite ++ epoch ++ eKemPk ++ ctS ++ encIdent : Bytes)
      = [0x01] ++ (reserved ++ (si ++ (suite ++ (epoch ++ (eKemPk ++ (ctS ++ (encIdent ++ []))))))) := by simp
  unfold parse
  rw [hall, take_append hheader, ← hall, htype]
  simp only [ok_bind, take_type, take_append, h1, h2, h3, h4, h5, h6, h7, hs, List.head?_cons, ne_eq,
    not_true_eq_false, if_false]
  rfl

theorem Init.eq_of_parse {msg : Bytes} {i : Init} (h : parse msg = .ok i) :
    msg = i.header ++ i.eKemPkBytes ++ i.ctS ++ i.encIdent := by
  obtain ⟨⟨header, rest⟩, h0, h⟩ := bind_eq_ok.mp h
  obtain ⟨⟨ty, r1⟩, h1, h⟩ := bind_eq_ok.mp h
  obtain ⟨-, h⟩ := guard_eq_ok.mp h
  obtain ⟨⟨res, r2⟩, h2, h⟩ := bind_eq_ok.mp h
  obtain ⟨⟨si, r3⟩, h3, h⟩ := bind_eq_ok.mp h
  obtain ⟨⟨suite, r4⟩, h4, h⟩ := bind_eq_ok.mp h
  obtain ⟨⟨epoch, r5⟩, h5, h⟩ := bind_eq_ok.mp h
  obtain ⟨-, h⟩ := guard_eq_ok.mp h
  obtain ⟨⟨eKemPk, r6⟩, h6, h⟩ := bind_eq_ok.mp h
  obtain ⟨⟨ctS, r7⟩, h7, h⟩ := bind_eq_ok.mp h
  obtain ⟨⟨encIdent, r8⟩, h8, h⟩ := bind_eq_ok.mp h
  obtain ⟨hend, h⟩ := guard_eq_ok.mp h
  obtain rfl : Init.mk header _ eKemPk ctS encIdent = i := by simpa [pure, Except.pure] using h
  obtain rfl : r8 = [] := by simpa using hend
  rw [take_eq_ok] at h0 h1 h2 h3 h4 h5 h6 h7 h8
  obtain ⟨h0, hlen⟩ := h0
  obtain ⟨rfl, l1⟩ := h1
  obtain ⟨rfl, l2⟩ := h2
  obtain ⟨rfl, l3⟩ := h3
  obtain ⟨rfl, l4⟩ := h4
  obtain ⟨rfl, l5⟩ := h5
  obtain ⟨rfl, -⟩ := h6
  obtain ⟨rfl, -⟩ := h7
  obtain ⟨rfl, -⟩ := h8
  have hheader : header = ty ++ res ++ si ++ suite ++ epoch := by
    have hsplit : header ++ rest
        = (ty ++ res ++ si ++ suite ++ epoch) ++ (eKemPk ++ (ctS ++ (encIdent ++ []))) := by
      rw [← h0]
      simp
    exact (List.append_inj hsplit (by simp [hlen, l1, l2, l3, l4, l5])).1
  simp [hheader]

theorem Init.parse_sent (params : SessionParams) {eKemPk ctS encIdent : Bytes}
    (h5 : eKemPk.length = KEM_PUBLIC_KEY) (h6 : ctS.length = KEM_CIPHERTEXT)
    (h7 : encIdent.length = HINT_LEN + TIMESTAMP_LEN + 16) :
    parse (initHeader params ++ eKemPk ++ ctS ++ encIdent)
      = .ok ⟨initHeader params, params.pskEpoch, eKemPk, ctS, encIdent⟩ := by
  have hepoch : UInt32.ofNat (leValue (leBytes 4 params.pskEpoch.toNat)) = params.pskEpoch := by
    have hlt : params.pskEpoch.toNat < 256 ^ 4 := params.pskEpoch.toNat_lt
    rw [leValue_leBytes, Nat.mod_eq_of_lt hlt, UInt32.ofNat_toNat]
  have hparse := @Init.parse_append [0, 0, 0] (leBytes 4 params.senderIndex.toNat)
    (leBytes 2 SUITE_ID.toNat) (leBytes 4 params.pskEpoch.toNat) eKemPk ctS encIdent
    rfl (by simp) (by simp) (by simp) (by decide) h5 h6 h7
  rw [hepoch] at hparse
  exact hparse

theorem Response.parse_sent (senderIndex : UInt32) {ctE ctSs encEmpty : Bytes}
    (h4 : ctE.length = KEM_CIPHERTEXT) (h5 : ctSs.length = KEM_CIPHERTEXT)
    (h6 : encEmpty.length = 16) : parse (responseHeader senderIndex ++ ctE ++ ctSs ++ encEmpty)
      = .ok ⟨responseHeader senderIndex, ctE, ctSs, encEmpty⟩ :=
  Response.parse_append rfl (by simp) (by simp) h4 h5 h6

/-! ### Runs of the transcript schedule

A successful call leaves a record of the values it went through.  The record's `script` lists what
the call mixed, in order; the symmetric state it ended in is the run of that script. -/

/-- Identity phase: header, responder key, ephemeral key, first KEM contribution. -/
def boundScript (header sR eKemPk ssS ctS : Bytes) : List (Mix UInt8) :=
  [.hash header, .hash sR, .hash eKemPk, .key ssS, .hash ctS]

/-- Both remaining KEM contributions. -/
def kemScript (ssE ctE ssSs ctSs : Bytes) : List (Mix UInt8) :=
  [.key ssE, .hash ctE, .key ssSs, .hash ctSs]

structure Sent (keys : StaticKeys P) (peer : PeerPublic P) (params : SessionParams)
    (rand : InitiatorRandomness) (ini : Initiator P) (msg : Bytes) where
  encIdent : Bytes
  encrypted : encryptAndHash P ((schedule P).run (SymmetricState.new P)
        (boundScript (initHeader params) (P.sha384 (P.toBytes peer.kemPk))
          (P.toBytes (P.keypairFromSeed rand.eKemSeed).2) (P.encapsulate peer.kemPk rand.encapRand).2
          (P.encapsulate peer.kemPk rand.encapRand).1))
      (keys.hint ++ rand.timestamp.toList) = some (ini.state, encIdent)
  ini_eq : ini = ⟨ini.state, (P.keypairFromSeed rand.eKemSeed).1, keys, peer⟩
  msg_eq : msg = initHeader params ++ P.toBytes (P.keypairFromSeed rand.eKemSeed).2
    ++ (P.encapsulate peer.kemPk rand.encapRand).1 ++ encIdent

theorem initiate_eq_ok {keys : StaticKeys P} {peer : PeerPublic P} {params : SessionParams}
    {rand : InitiatorRandomness} {ini : Initiator P} {msg : Bytes} :
    initiate keys peer params rand = .ok (ini, msg) ↔ Nonempty (Sent keys peer params rand ini msg) := by
  unfold initiate
  simp only [mixKey_eq, mixHash_eq]
  constructor
  · intro h
    obtain ⟨⟨state, encIdent⟩, henc, h⟩ := bind_eq_ok.mp h
    rw [okOr_eq_ok] at henc
    obtain ⟨rfl, rfl⟩ := h
    exact ⟨⟨encIdent, henc, rfl, rfl⟩⟩
  · rintro ⟨encIdent, henc, hini, rfl⟩
    refine bind_eq_ok.mpr ⟨(ini.state, encIdent), okOr_eq_ok.mpr henc, ?_⟩
    rw [hini]
    rfl

structure Finished (ini : Initiator P) (msg : Bytes) (keys : TransportKeys) where
  resp : Response
  ssE : Bytes
  ssSs : Bytes
  state : SymmetricState
  plaintext : Bytes
  parsed : Response.parse msg = .ok resp
  decapsulatedE : P.decapsulate ini.eKemSk resp.ctE = some ssE
  decapsulatedS : P.decapsulate ini.keys.kemSk resp.ctSs = some ssSs
  decrypted : decryptAndHash P ((schedule P).run ini.state (kemScript ssE resp.ctE ssSs resp.ctSs
        ++ [.keyAndHash ini.peer.psk.toList] ++ [.hash resp.header])) resp.encEmpty = some (state, plaintext)
  keys_eq : keys = state.split P

theorem tryFinish_eq_ok {ini : Initiator P} {msg : Bytes} {keys : TransportKeys} :
    ini.tryFinish msg = .ok keys ↔ Nonempty (Finished ini msg keys) := by
  unfold Initiator.tryFinish
  simp only [mixKey_eq, mixHash_eq, mixKeyAndHash_eq]
  constructor
  · intro h
    obtain ⟨resp, hparse, h⟩ := bind_eq_ok.mp h
    obtain ⟨ssE, hE, h⟩ := bind_eq_ok.mp h
    obtain ⟨ssSs, hS, h⟩ := bind_eq_ok.mp h
    obtain ⟨⟨state, pt⟩, hdec, h⟩ := bind_eq_ok.mp h
    rw [okOr_eq_ok] at hE hS hdec
    simp only [pure, Except.pure, Except.ok.injEq] at h
    exact ⟨⟨resp, ssE, ssSs, state, pt, hparse, hE, hS, hdec, h.symm⟩⟩
  · rintro ⟨resp, ssE, ssSs, state, pt, hparse, hE, hS, hdec, rfl⟩
    refine bind_eq_ok.mpr ⟨resp, hparse, bind_eq_ok.mpr ⟨ssE, okOr_eq_ok.mpr hE, ?_⟩⟩
    refine bind_eq_ok.mpr ⟨ssSs, okOr_eq_ok.mpr hS, ?_⟩
    exact bind_eq_ok.mpr ⟨(state, pt), okOr_eq_ok.mpr hdec, rfl⟩

structure Responded (keys : StaticKeys P) (msg : Bytes)
    (lookup : Lookup P) (rand : ResponderRandomness)
    (senderIndex : UInt32) (out : Bytes) (derived : TransportKeys) where
  init : Init
  eKemPk : P.PublicKey
  ssS : Bytes
  opened : SymmetricState
  hint : Bytes
  tail : Bytes
  peer : PeerPublic P
  state : SymmetricState
  encEmpty : Bytes
  parsed : Init.parse msg = .ok init
  ephemeral : P.fromBytes init.eKemPkBytes = some eKemPk
  decapsulated : P.decapsulate keys.kemSk init.ctS = some ssS
  decrypted : decryptAndHash P ((schedule P).run (SymmetricState.new P)
        (boundScript init.header (P.sha384 (P.toBytes keys.kemPk)) init.eKemPkBytes ssS init.ctS))
      init.encIdent = some (opened, hint ++ tail)
  hint_length : hint.length = HINT_LEN
  found : lookup hint init.pskEpoch = some peer
  encrypted : encryptAndHash P ((schedule P).run opened (kemScript (P.encapsulate eKemPk rand.encapRandE).2
          (P.encapsulate eKemPk rand.encapRandE).1 (P.encapsulate peer.kemPk rand.encapRandS).2
          (P.encapsulate peer.kemPk rand.encapRandS).1
        ++ [.keyAndHash peer.psk.toList] ++ [.hash (responseHeader senderIndex)])) [] = some (state, encEmpty)
  out_eq : out = responseHeader senderIndex ++ (P.encapsulate eKemPk rand.encapRandE).1
    ++ (P.encapsulate peer.kemPk rand.encapRandS).1 ++ encEmpty
  derived_eq : derived = state.split P

theorem respond_eq_ok {keys : StaticKeys P} {msg : Bytes}
    {lookup : Lookup P} {rand : ResponderRandomness}
    {senderIndex : UInt32} {out : Bytes} {derived : TransportKeys} :
    respond keys msg lookup rand senderIndex = .ok (out, ⟨derived⟩)
      ↔ Nonempty (Responded keys msg lookup rand senderIndex out derived) := by
  unfold respond openInit answer
  simp only [mixKey_eq, mixHash_eq, mixKeyAndHash_eq]
  constructor
  · intro h
    obtain ⟨init, hparse, h1⟩ := bind_eq_ok.mp h
    obtain ⟨⟨eKemPk, opened, hint⟩, hopen, h2⟩ := bind_eq_ok.mp h1
    obtain ⟨peer, hfound, h3⟩ := bind_eq_ok.mp h2
    obtain ⟨⟨state, encEmpty⟩, henc, hout⟩ := bind_eq_ok.mp h3
    obtain ⟨pk, hpk, h4⟩ := bind_eq_ok.mp hopen
    obtain ⟨ssS, hssS, h5⟩ := bind_eq_ok.mp h4
    obtain ⟨⟨opened', ident⟩, hdec, h6⟩ := bind_eq_ok.mp h5
    obtain ⟨⟨hint', tail⟩, htake, h7⟩ := bind_eq_ok.mp h6
    simp only [pure, Except.pure, Except.ok.injEq, Prod.mk.injEq, Unconfirmed.mk.injEq] at hout h7
    obtain ⟨rfl, rfl, rfl⟩ := h7
    obtain ⟨rfl, rfl⟩ := hout
    obtain ⟨rfl, hlen⟩ := take_eq_ok.mp htake
    rw [okOr_eq_ok] at hfound henc hpk hssS hdec
    exact ⟨⟨init, pk, ssS, opened', hint', tail, peer, state, encEmpty, hparse, hpk, hssS, hdec, hlen,
      hfound, henc, rfl, rfl⟩⟩
  · rintro ⟨init, pk, ssS, opened, hint, tail, peer, state, encEmpty, hparse, hpk, hssS, hdec, hlen,
      hfound, henc, rfl, rfl⟩
    refine bind_eq_ok.mpr ⟨init, hparse, bind_eq_ok.mpr ⟨(pk, opened, hint), ?_, ?_⟩⟩
    · refine bind_eq_ok.mpr ⟨pk, okOr_eq_ok.mpr hpk, bind_eq_ok.mpr ⟨ssS, okOr_eq_ok.mpr hssS, ?_⟩⟩
      refine bind_eq_ok.mpr ⟨(opened, hint ++ tail), okOr_eq_ok.mpr hdec, ?_⟩
      exact bind_eq_ok.mpr ⟨(hint, tail), take_append hlen, rfl⟩
    · refine bind_eq_ok.mpr ⟨peer, okOr_eq_ok.mpr hfound, ?_⟩
      exact bind_eq_ok.mpr ⟨(state, encEmpty), okOr_eq_ok.mpr henc, rfl⟩

end Karst.Noise
