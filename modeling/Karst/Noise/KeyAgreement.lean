import Karst.Crypto.Reference
import Karst.Noise.Handshake
import Karst.Noise.Transport

/-!
# Key agreement

Over honest bytes both sides of a handshake succeed and derive the same keys.  The two key
schedules are written separately in the source; the proof follows the records of the three calls
and shows that each side mixes what the other mixed.
-/

namespace Karst.Noise

open Crypto MixScript SymmetricState

variable {P : Primitives}

/-! ### Honest runs -/

theorem boundScript_k (s : SymmetricState) (header sR eKemPk ssS ctS : Bytes) :
    ∃ k, ((schedule P).run s (boundScript header sR eKemPk ssS ctS)).k = some k := ⟨_, rfl⟩

theorem confirmScript_k (s : SymmetricState) (ms : List (Mix UInt8)) (psk header : Bytes) :
    ∃ k, ((schedule P).run s (ms ++ [.keyAndHash psk] ++ [.hash header])).k = some k := by
  rw [Schedule.run_concat, Schedule.run_concat]
  exact ⟨_, rfl⟩

theorem peerIdHint_length (b : Bytes) : (peerIdHint P b).length = HINT_LEN := by
  simp [peerIdHint, P.sha512_length, HINT_LEN]

theorem initiate_succeeds (hP : P.Correct) (keys : StaticKeys P) (peer : PeerPublic P)
    (params : SessionParams) (rand : InitiatorRandomness) :
    ∃ ini msg, initiate keys peer params rand = .ok (ini, msg) := by
  obtain ⟨k, hk⟩ := boundScript_k (P := P) (SymmetricState.new P) (initHeader params)
    (P.sha384 (P.toBytes peer.kemPk)) (P.toBytes (P.keypairFromSeed rand.eKemSeed).2)
    (P.encapsulate peer.kemPk rand.encapRand).2 (P.encapsulate peer.kemPk rand.encapRand).1
  obtain ⟨state, ct, henc⟩ := encryptAndHash_eq_some hP hk (keys.hint ++ rand.timestamp.toList)
  exact ⟨⟨state, _, keys, peer⟩, _, initiate_eq_ok.mpr ⟨⟨ct, henc, rfl, rfl⟩⟩⟩

variable {keysI keysR : StaticKeys P} {psk : Vector UInt8 32} {params : SessionParams}
  {randI : InitiatorRandomness} {ini : Initiator P} {msg1 : Bytes}

theorem Sent.parsed (hP : P.Correct) {peer : PeerPublic P} (a : Sent keysI peer params randI ini msg1) :
    Init.parse msg1 = .ok ⟨initHeader params, params.pskEpoch, P.toBytes (P.keypairFromSeed randI.eKemSeed).2,
      (P.encapsulate peer.kemPk randI.encapRand).1, a.encIdent⟩ := by
  have hlen : a.encIdent.length = HINT_LEN + TIMESTAMP_LEN + 16 := by
    rw [(decryptAndHash_of_encrypt hP a.encrypted).2, List.length_append, StaticKeys.hint,
      peerIdHint_length, Vector.length_toList]
    rfl
  have hparse := Init.parse_sent params (P.toBytes_length (P.keypairFromSeed randI.eKemSeed).2)
    (P.encapsulate_length peer.kemPk randI.encapRand) hlen
  exact (congrArg Init.parse a.msg_eq).trans hparse

/-- What an honest responder mixes after the init. -/
def answerScript (P : Primitives) (ePk sPk : P.PublicKey) (rand : ResponderRandomness)
    (psk : Vector UInt8 32) (senderIndex : UInt32) : List (Mix UInt8) :=
  kemScript (P.encapsulate ePk rand.encapRandE).2 (P.encapsulate ePk rand.encapRandE).1
      (P.encapsulate sPk rand.encapRandS).2 (P.encapsulate sPk rand.encapRandS).1
    ++ [.keyAndHash psk.toList] ++ [.hash (responseHeader senderIndex)]

def answerBytes (P : Primitives) (ePk sPk : P.PublicKey) (rand : ResponderRandomness)
    (senderIndex : UInt32) (encEmpty : Bytes) : Bytes :=
  responseHeader senderIndex ++ (P.encapsulate ePk rand.encapRandE).1
    ++ (P.encapsulate sPk rand.encapRandS).1 ++ encEmpty

section

variable {randR : ResponderRandomness} {senderIndex : UInt32} {state : SymmetricState} {encEmpty : Bytes}
  (hP : P.Correct) (hsent : Sent keysI ⟨keysR.kemPk, psk⟩ params randI ini msg1)
  (hconf : encryptAndHash P ((schedule P).run ini.state
    (answerScript P (P.keypairFromSeed randI.eKemSeed).2 keysI.kemPk randR psk senderIndex)) []
    = some (state, encEmpty))

include hP hsent hconf

theorem respond_sent (hR : keysR.Paired) {lookup : Lookup P}
    (hlookup : lookup keysI.hint params.pskEpoch = some ⟨keysI.kemPk, psk⟩) :
    respond keysR msg1 lookup randR senderIndex
      = .ok (answerBytes P (P.keypairFromSeed randI.eKemSeed).2 keysI.kemPk randR senderIndex
          encEmpty, ⟨state.split P⟩) := by
  exact respond_eq_ok.mpr ⟨{
    init := _
    eKemPk := (P.keypairFromSeed randI.eKemSeed).2
    ssS := _
    opened := ini.state
    hint := keysI.hint
    tail := randI.timestamp.toList
    peer := ⟨keysI.kemPk, psk⟩
    state := state
    encEmpty := encEmpty
    parsed := hsent.parsed hP
    ephemeral := hP.fromBytes_toBytes _
    decapsulated := hR randI.encapRand
    decrypted := (decryptAndHash_of_encrypt hP hsent.encrypted).1
    hint_length := peerIdHint_length _
    found := hlookup
    encrypted := hconf
    out_eq := rfl
    derived_eq := rfl }⟩

theorem tryFinish_answer (hI : keysI.Paired) :
    ini.tryFinish (answerBytes P (P.keypairFromSeed randI.eKemSeed).2 keysI.kemPk randR senderIndex
      encEmpty) = .ok (state.split P) := by
  obtain ⟨hopened, hlen⟩ := decryptAndHash_of_encrypt hP hconf
  have hini := hsent.ini_eq
  refine tryFinish_eq_ok.mpr ⟨{
    resp := _
    ssE := (P.encapsulate (P.keypairFromSeed randI.eKemSeed).2 randR.encapRandE).2
    ssSs := (P.encapsulate keysI.kemPk randR.encapRandS).2
    state := state
    plaintext := []
    parsed := Response.parse_sent senderIndex (P.encapsulate_length _ _) (P.encapsulate_length _ _) hlen
    decapsulatedE := ?_
    decapsulatedS := ?_
    decrypted := ?_
    keys_eq := rfl }⟩
  · rw [hini]
    exact hP.paired randI.eKemSeed randR.encapRandE
  · rw [hini]
    exact hI randR.encapRandS
  · rw [hini]
    exact hopened

end

/-- **Honest bytes finish.**  A responder that resolves the initiator's hint to its static key and
their shared PSK answers the init, and the initiator derives the responder's keys from the answer. -/
theorem exchange_succeeds (hP : P.Correct) (hI : keysI.Paired) (hR : keysR.Paired)
    (hsent : initiate keysI ⟨keysR.kemPk, psk⟩ params randI = .ok (ini, msg1))
    {lookup : Lookup P} (hlookup : lookup keysI.hint params.pskEpoch = some ⟨keysI.kemPk, psk⟩)
    (randR : ResponderRandomness) (senderIndex : UInt32) : ∃ ePk encEmpty derived,
      respond keysR msg1 lookup randR senderIndex
        = .ok (answerBytes P ePk keysI.kemPk randR senderIndex encEmpty, ⟨derived⟩)
      ∧ ini.tryFinish (answerBytes P ePk keysI.kemPk randR senderIndex encEmpty) = .ok derived := by
  obtain ⟨sent⟩ := initiate_eq_ok.mp hsent
  obtain ⟨k, hk⟩ := confirmScript_k (P := P) ini.state _ psk.toList (responseHeader senderIndex)
  obtain ⟨state, encEmpty, hconf⟩ := encryptAndHash_eq_some hP hk []
  exact ⟨_, encEmpty, _, respond_sent hP sent hconf hR hlookup, tryFinish_answer hP sent hconf hI⟩

theorem Sent.senderIndex_field {peer : PeerPublic P} (a : Sent keysI peer params randI ini msg1) :
    (msg1.drop 4).take 4 = leBytes 4 params.senderIndex.toNat := by
  rw [a.msg_eq]
  rfl

/-- **Key agreement.**  Each side sends under the key the other receives under.  The answer's
receiver index is zero whatever the initiator chose, so it echoes the sender index of the init only
if that is zero too. -/
theorem key_agreement (hP : P.Correct) (hI : keysI.Paired) (hR : keysR.Paired)
    (psk : Vector UInt8 32) (params : SessionParams) (randI : InitiatorRandomness)
    (randR : ResponderRandomness) (senderIndex : UInt32) {lookup : Bytes → UInt32 → Option (PeerPublic P)}
    (hlookup : lookup keysI.hint params.pskEpoch = some ⟨keysI.kemPk, psk⟩) :
    ∃ ini msg1 msg2 unconfirmed keys, initiate keysI ⟨keysR.kemPk, psk⟩ params randI = .ok (ini, msg1)
      ∧ respond keysR msg1 lookup randR senderIndex = .ok (msg2, unconfirmed)
      ∧ ini.tryFinish msg2 = .ok keys ∧ (∀ idxI idxR tI tR,
          (TransportSession.new keys .initiator idxI tI).sendCipher
            = (TransportSession.new unconfirmed.confirm .responder idxR tR).recvCipher
          ∧ (TransportSession.new keys .initiator idxI tI).recvCipher
            = (TransportSession.new unconfirmed.confirm .responder idxR tR).sendCipher)
      ∧ msg2.take 12 = [0x02, 0, 0, 0] ++ leBytes 4 senderIndex.toNat ++ leBytes 4 0
      ∧ ((msg2.drop 8).take 4 = (msg1.drop 4).take 4 ↔ params.senderIndex = 0) := by
  obtain ⟨ini, msg1, hsent⟩ := initiate_succeeds hP keysI ⟨keysR.kemPk, psk⟩ params randI
  obtain ⟨ePk, encEmpty, derived, hresp, hfin⟩ :=
    exchange_succeeds hP hI hR hsent hlookup randR senderIndex
  refine ⟨ini, msg1, _, ⟨derived⟩, derived, hsent, hresp, hfin, fun _ _ _ _ => ⟨rfl, rfl⟩, rfl, ?_⟩
  obtain ⟨sent⟩ := initiate_eq_ok.mp hsent
  have hfield : ((answerBytes P ePk keysI.kemPk randR senderIndex encEmpty).drop 8).take 4
      = leBytes 4 0 := rfl
  rw [hfield, sent.senderIndex_field]
  constructor
  · intro h
    have hzero : 0 = params.senderIndex.toNat :=
      leBytes_inj (by decide) params.senderIndex.toNat_lt h
    exact UInt32.toNat_inj.mp hzero.symm
  · intro h
    rw [h]
    rfl

def referenceKeys (k : UInt8) : StaticKeys reference := ⟨k, k⟩

theorem referenceKeys_paired (k : UInt8) : (referenceKeys k).Paired := reference_paired k

def referencePsk : Vector UInt8 32 := Vector.replicate 32 7

def referenceRandI : InitiatorRandomness :=
  ⟨Vector.replicate 64 9, Vector.replicate 32 0, Vector.replicate 12 0⟩

def referenceRandR : ResponderRandomness := ⟨Vector.replicate 32 1, Vector.replicate 32 2⟩

def referenceLookup (k : UInt8) : Bytes → UInt32 → Option (PeerPublic reference) :=
  fun hint _ => if hint = (referenceKeys k).hint then some ⟨(referenceKeys k).kemPk, referencePsk⟩
    else none

theorem referenceLookup_hint (k : UInt8) (e : UInt32) : referenceLookup k (referenceKeys k).hint e
      = some ⟨(referenceKeys k).kemPk, referencePsk⟩ := if_pos rfl

theorem key_agreement_reference : ∃ ini msg1 msg2 unconfirmed keys,
      initiate (referenceKeys 3) ⟨(referenceKeys 5).kemPk, referencePsk⟩ ⟨4, 0⟩ referenceRandI
        = .ok (ini, msg1)
      ∧ respond (referenceKeys 5) msg1 (referenceLookup 3) referenceRandR 8 = .ok (msg2, unconfirmed)
      ∧ ini.tryFinish msg2 = .ok keys ∧ keys.initiatorToResponder = unconfirmed.confirm.initiatorToResponder
      ∧ (msg2.drop 8).take 4 = (msg1.drop 4).take 4 := by
  obtain ⟨ini, msg1, msg2, u, keys, h1, h2, h3, h4, -, h6⟩ :=
    key_agreement reference_correct (referenceKeys_paired 3) (referenceKeys_paired 5) referencePsk
      ⟨4, 0⟩ referenceRandI referenceRandR 8 (referenceLookup_hint 3 4)
  exact ⟨ini, msg1, msg2, u, keys, h1, h2, h3, (h4 0 0 0 0).1, h6.mpr rfl⟩

/-- The indices do not match: the initiator announced index `1`, the answer is addressed to `0`. -/
theorem receiver_index_not_echoed : ∃ ini msg1 msg2 unconfirmed,
      initiate (referenceKeys 3) ⟨(referenceKeys 5).kemPk, referencePsk⟩ ⟨0, 1⟩ referenceRandI
        = .ok (ini, msg1)
      ∧ respond (referenceKeys 5) msg1 (referenceLookup 3) referenceRandR 8 = .ok (msg2, unconfirmed)
      ∧ (msg1.drop 4).take 4 = leBytes 4 1 ∧ (msg2.drop 8).take 4 ≠ leBytes 4 1 := by
  obtain ⟨ini, msg1, hsent⟩ := initiate_succeeds reference_correct (referenceKeys 3)
    ⟨(referenceKeys 5).kemPk, referencePsk⟩ ⟨0, 1⟩ referenceRandI
  obtain ⟨ePk, encEmpty, derived, hresp, -⟩ :=
    exchange_succeeds reference_correct (referenceKeys_paired 3) (referenceKeys_paired 5) hsent
      (referenceLookup_hint 3 0) referenceRandR 8
  refine ⟨ini, msg1, _, _, hsent, hresp, ?_, ?_⟩
  · obtain ⟨sent⟩ := initiate_eq_ok.mp hsent
    exact sent.senderIndex_field
  · have hfield : ((answerBytes reference ePk (referenceKeys 3).kemPk referenceRandR 8 encEmpty).drop
        8).take 4 = leBytes 4 0 := rfl
    rw [hfield]
    decide

end Karst.Noise
