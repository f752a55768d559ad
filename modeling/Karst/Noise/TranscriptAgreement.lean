import Karst.Noise.KeyAgreement

/-!
# Transcript agreement

If the initiator accepts a response that a responder produced for *some* init, the responder worked
on the initiator's own init, byte for byte, with the same PSK and the same two static keys
(`transcript_agreement`).  The confirmation opens only under the transcript it was sealed under, and a
collision-free schedule has only one script for a transcript.

The idealisations are asked of the inputs the two runs evaluate (`Idealised`).
-/

namespace Karst.Noise

open Crypto MixScript SymmetricState Option Except Responded
open List hiding Vector

variable {P : Primitives}

section

variable {keysI keysR : StaticKeys P} {peerI : PeerPublic P} {params : SessionParams}
  {randI : InitiatorRandomness} {ini : Initiator P} {msg1 msg msg2 : Bytes}
  {lookup : Lookup P} {randR : ResponderRandomness}
  {senderIndex : UInt32} {derived keys : TransportKeys}
  (a : Sent keysI peerI params randI ini msg1) (f : Finished ini msg2 keys)
  (b : Responded keysR msg lookup randR senderIndex msg2 derived)

def Sent.script : List (Mix UInt8) :=
  boundScript (initHeader params) (P.sha384 (P.toBytes peerI.kemPk))
      (P.toBytes (P.keypairFromSeed randI.eKemSeed).2)
      (P.encapsulate peerI.kemPk randI.encapRand).2 (P.encapsulate peerI.kemPk randI.encapRand).1
    ++ [.hash a.encIdent]

def Finished.script : List (Mix UInt8) :=
  kemScript f.ssE f.resp.ctE f.ssSs f.resp.ctSs

def Responded.openScript : List (Mix UInt8) :=
  boundScript b.init.header (P.sha384 (P.toBytes keysR.kemPk)) b.init.eKemPkBytes b.ssS b.init.ctS
    ++ [.hash b.init.encIdent]

def Responded.script : List (Mix UInt8) :=
  kemScript (P.encapsulate b.eKemPk randR.encapRandE).2 (P.encapsulate b.eKemPk randR.encapRandE).1
    (P.encapsulate b.peer.kemPk randR.encapRandS).2 (P.encapsulate b.peer.kemPk randR.encapRandS).1

def initiatorScript : List (Mix UInt8) :=
  (a.script ++ f.script) ++ [.keyAndHash ini.peer.psk.toList] ++ [.hash f.resp.header]

def responderScript : List (Mix UInt8) :=
  (b.openScript ++ b.script) ++ [.keyAndHash b.peer.psk.toList] ++ [.hash (responseHeader senderIndex)]

def initiatorState : SymmetricState :=
  (schedule P).run (SymmetricState.new P) (initiatorScript a f)

def responderState : SymmetricState :=
  (schedule P).run (SymmetricState.new P) (responderScript b)

theorem Sent.state_eq : ini.state = (schedule P).run (new P) a.script := by
  obtain ⟨k, -, -, hstate⟩ := encryptAndHash_inv a.encrypted
  rw [hstate, Sent.script, Schedule.run_concat]
  rfl

theorem Responded.opened_eq : b.opened = (schedule P).run (new P) b.openScript := by
  obtain ⟨k, -, -, hstate⟩ := decryptAndHash_inv b.decrypted
  rw [hstate, openScript, Schedule.run_concat]
  rfl

theorem initiatorState_eq :
    decryptAndHash P (initiatorState a f) f.resp.encEmpty = some (f.state, f.plaintext) := by
  have hdec := f.decrypted
  rw [a.state_eq, ← Schedule.run_append, ← append_assoc, ← append_assoc] at hdec
  exact hdec

theorem responderState_eq : encryptAndHash P (responderState b) [] = some (b.state, b.encEmpty) := by
  have henc := b.encrypted
  rw [b.opened_eq, ← Schedule.run_append, ← append_assoc, ← append_assoc] at henc
  exact henc

theorem Finished.resp_eq : f.resp = ⟨responseHeader senderIndex, (P.encapsulate b.eKemPk randR.encapRandE).1,
      (P.encapsulate b.peer.kemPk randR.encapRandS).1, b.encEmpty⟩ := by
  obtain ⟨k, -, hseal, -⟩ := encryptAndHash_inv b.encrypted
  have hparse := Response.parse_sent senderIndex (P.encapsulate_length b.eKemPk randR.encapRandE)
    (P.encapsulate_length b.peer.kemPk randR.encapRandS) (Primitives.cipherSeal_length hseal)
  rw [← b.out_eq, f.parsed] at hparse
  exact ok.inj hparse

/-- The idealisations, on the inputs of one pair of runs. -/
structure Idealised : Prop where
  /-- Hash and HKDF do not collide on what the two runs feed them. -/
  transcript : (schedule P).CollisionFree (SymmetricState.new P) (initiatorScript a f) (responderScript b)
  /-- Nor does the hash on the two responder keys, nor the hint on the two initiator keys. -/
  staticKey : P.sha384 (P.toBytes peerI.kemPk) = P.sha384 (P.toBytes keysR.kemPk) →
    P.toBytes peerI.kemPk = P.toBytes keysR.kemPk
  hint : peerIdHint P (P.toBytes b.peer.kemPk) = keysI.hint → P.toBytes b.peer.kemPk = P.toBytes keysI.kemPk
  /-- The confirmation opens only under the key, nonce and associated data it was sealed under. -/
  confirmation : ∀ kI kR p, (initiatorState a f).k = some kI → (responderState b).k = some kR →
    P.cipherSeal kR zeroNonce (responderState b).h [] = some b.encEmpty →
      P.cipherOpen kI zeroNonce (initiatorState a f).h b.encEmpty = some p →
        kI = kR ∧ (initiatorState a f).h = (responderState b).h

theorem scripts_sameKind : Forall₂ Mix.SameKind (a.script ++ f.script) (b.openScript ++ b.script) := by
  simp [Sent.script, Finished.script, openScript, script, boundScript, kemScript, Mix.SameKind]

/-- **Same confirmation, same script.** -/
theorem scripts_eq (h : Idealised a f b) : a.script ++ f.script = b.openScript ++ b.script
      ∧ ini.peer.psk.toList = b.peer.psk.toList := by
  obtain ⟨kR, hkR, hseal, -⟩ := encryptAndHash_inv (responderState_eq b)
  obtain ⟨kI, hkI, hopen, -⟩ := decryptAndHash_inv (initiatorState_eq a f)
  rw [f.resp_eq b] at hopen
  obtain ⟨-, hh⟩ := h.confirmation kI kR _ hkI hkR hseal hopen
  obtain ⟨hms, hpsk, -⟩ := Schedule.run_injective_tagged P.sha384_length (P.sha384_length _)
    (scripts_sameKind a f b) h.transcript hh
  exact ⟨hms, hpsk⟩

theorem init_fields (h : a.script ++ f.script = b.openScript ++ b.script) :
    initHeader params = b.init.header ∧ P.sha384 (P.toBytes peerI.kemPk) = P.sha384 (P.toBytes keysR.kemPk)
      ∧ P.toBytes (P.keypairFromSeed randI.eKemSeed).2 = b.init.eKemPkBytes
      ∧ (P.encapsulate peerI.kemPk randI.encapRand).2 = b.ssS
      ∧ (P.encapsulate peerI.kemPk randI.encapRand).1 = b.init.ctS ∧ a.encIdent = b.init.encIdent := by
  simp only [Sent.script, Finished.script, openScript, script, boundScript,
    kemScript, cons_append, nil_append, cons.injEq, Mix.hash.injEq, Mix.key.injEq] at h
  exact ⟨h.1, h.2.1, h.2.2.1, h.2.2.2.1, h.2.2.2.2.1, h.2.2.2.2.2.1⟩

theorem msg_eq_of_scripts (h : a.script ++ f.script = b.openScript ++ b.script) : msg = msg1 := by
  obtain ⟨hheader, -, hpk, -, hct, hident⟩ := init_fields a f b h
  rw [Init.eq_of_parse b.parsed, a.msg_eq, hheader, hpk, hct, hident]

theorem found_of_scripts (hP : P.Correct)
    (h : a.script ++ f.script = b.openScript ++ b.script) :
    lookup keysI.hint params.pskEpoch = some b.peer := by
  obtain ⟨hheader, hsR, hpk, hss, hct, hident⟩ := init_fields a f b h
  have hdec := (decryptAndHash_of_encrypt hP a.encrypted).1
  have hepoch : b.init.pskEpoch = params.pskEpoch := by
    have hsame := congrArg Init.parse (msg_eq_of_scripts a f b h)
    rw [b.parsed, a.parsed hP] at hsame
    exact congrArg Init.pskEpoch (ok.inj hsame)
  -- both sides decrypt one ciphertext in one state, so they read one identity
  rw [hheader, hsR, hpk, hss, hct, hident, b.decrypted] at hdec
  have hpt : b.hint ++ b.tail = keysI.hint ++ randI.timestamp.toList :=
    congrArg Prod.snd (some.inj hdec)
  have hhint : b.hint = keysI.hint :=
    (append_inj hpt (b.hint_length.trans (peerIdHint_length _).symm)).1
  have hfound := b.found
  rw [hhint, hepoch] at hfound
  exact hfound

end

/-! ### Honest runs meet the idealisations -/

section

variable {keysI keysR : StaticKeys P} {psk : Vector UInt8 32} {params : SessionParams}
  {randI : InitiatorRandomness} {ini : Initiator P} {msg1 msg2 : Bytes}
  {lookup : Lookup P} {randR : ResponderRandomness}
  {senderIndex : UInt32} {derived keys : TransportKeys}

theorem honest_scripts (hP : P.Correct) (hI : keysI.Paired) (hR : keysR.Paired)
    (a : Sent keysI ⟨keysR.kemPk, psk⟩ params randI ini msg1) (f : Finished ini msg2 keys)
    (b : Responded keysR msg1 lookup randR senderIndex msg2 derived)
    (hlookup : lookup keysI.hint params.pskEpoch = some ⟨keysI.kemPk, psk⟩) :
    b.peer = ⟨keysI.kemPk, psk⟩ ∧ initiatorScript a f = responderScript b := by
  have hinit : b.init = _ := ok.inj (b.parsed.symm.trans (a.parsed hP))
  have hePk : b.eKemPk = (P.keypairFromSeed randI.eKemSeed).2 := by
    have he := b.ephemeral
    rw [hinit] at he
    exact some.inj (he.symm.trans (hP.fromBytes_toBytes _))
  have hssS : b.ssS = (P.encapsulate keysR.kemPk randI.encapRand).2 := by
    have hd := b.decapsulated
    rw [hinit] at hd
    exact some.inj (hd.symm.trans (hR randI.encapRand))
  have hpeer : b.peer = ⟨keysI.kemPk, psk⟩ := by
    have hdec := b.decrypted
    rw [hinit, hssS] at hdec
    have hpt := congrArg Prod.snd (some.inj (hdec.symm.trans (decryptAndHash_of_encrypt hP a.encrypted).1))
    have hhint : b.hint = keysI.hint :=
      (append_inj hpt (b.hint_length.trans (peerIdHint_length _).symm)).1
    have hfound := b.found
    rw [hhint, hinit] at hfound
    exact some.inj (hfound.symm.trans hlookup)
  have hresp := f.resp_eq b
  have hssE : f.ssE = (P.encapsulate b.eKemPk randR.encapRandE).2 := by
    have hsk : ini.eKemSk = (P.keypairFromSeed randI.eKemSeed).1 :=
      congrArg Initiator.eKemSk a.ini_eq
    have hd := f.decapsulatedE
    rw [hresp, hsk, hePk] at hd
    rw [hePk]
    exact some.inj (hd.symm.trans (hP.paired randI.eKemSeed randR.encapRandE))
  have hssSs : f.ssSs = (P.encapsulate b.peer.kemPk randR.encapRandS).2 := by
    have hsk : ini.keys = keysI := congrArg Initiator.keys a.ini_eq
    have hd := f.decapsulatedS
    rw [hresp, hsk, hpeer] at hd
    rw [hpeer]
    exact some.inj (hd.symm.trans (hI randR.encapRandS))
  refine ⟨hpeer, ?_⟩
  have hpsk : ini.peer.psk = b.peer.psk := by
    rw [a.ini_eq, hpeer]
  rw [initiatorScript, responderScript, Sent.script, Finished.script, openScript,
    script, hresp, hinit, hssS, hssE, hssSs, hpsk]

end

theorem referenceLookup_honest (k : UInt8) (hint : Bytes) (e : UInt32) (p : PeerPublic reference)
    (h : referenceLookup k hint e = some p) : peerIdHint reference (reference.toBytes p.kemPk) = hint := by
  unfold referenceLookup at h
  split at h
  · rename_i hh
    rw [← some.inj h, hh]
    rfl
  · exact absurd h (by simp)

theorem eq_of_map_nodup {α γ : Type*} {l : List α} {f : α → γ} {image : List γ} (h : l.map f = image)
    (hn : image.Nodup) {x y : α} (hx : x ∈ l) (hy : y ∈ l) (he : f x = f y) : x = y := by
  subst h
  exact inj_on_of_nodup_map hn hx hy he

/-- The reference hash counts its applications and the reference HKDF its ratchets, so a run never
meets the same digest or chaining key twice. -/
theorem reference_collisionFree (header sR ePk ssS ctS encIdent ssE ctE ssSs ctSs psk out : Bytes) :
    let script := (boundScript header sR ePk ssS ctS ++ [.hash encIdent] ++ kemScript ssE ctE ssSs ctSs)
      ++ [.keyAndHash psk] ++ [.hash out]
    (schedule reference).CollisionFree (new reference) script script := by
  refine ⟨fun x hx y hy he => ?_, fun x hx y hy he => ?_, fun x hx y hy _ => ?_⟩
  · exact eq_of_map_nodup (f := fun x => ((schedule reference).digest x).headD 0)
      (show _ = [77, 78, 79, 80, 81, 82, 83, 84, 85] from rfl) (by decide) hx hy
      (congrArg (fun d => headD d 0) he)
  · exact eq_of_map_nodup (f := fun x => ((schedule reference).ratchet x.1 x.2).1.headD 0)
      (show _ = [77, 78, 79] from rfl) (by decide) hx hy (congrArg (fun d => headD d 0) he)
  · simp only [Schedule.trace, Schedule.tagged, boundScript, kemScript, cons_append,
      nil_append, mem_singleton] at hx hy
    rw [hx, hy]

theorem reference_idealised {ini : Initiator reference} {msg1 msg2 : Bytes} {derived keys : TransportKeys}
    (a : Sent (referenceKeys 3) ⟨(referenceKeys 5).kemPk, referencePsk⟩ ⟨0, 1⟩ referenceRandI ini msg1)
    (f : Finished ini msg2 keys)
    (b : Responded (referenceKeys 5) msg1 (referenceLookup 3) referenceRandR 8 msg2 derived) :
    Idealised a f b := by
  obtain ⟨hpeer, hscripts⟩ := honest_scripts reference_correct (referenceKeys_paired 3)
    (referenceKeys_paired 5) a f b (referenceLookup_hint 3 0)
  have hstates : initiatorState a f = responderState b :=
    congrArg ((schedule reference).run (new reference)) hscripts
  refine ⟨?_, fun _ => rfl, fun _ => congrArg (fun p => reference.toBytes p.kemPk) hpeer, ?_⟩
  · rw [← hscripts]
    exact reference_collisionFree _ _ _ _ _ _ _ _ _ _ _ _
  · intro kI kR p hkI hkR _ _
    rw [hstates] at hkI ⊢
    exact ⟨some.inj (hkI.symm.trans hkR), rfl⟩

/-! ### Agreement -/

/-- One call of `try_finish`: it takes `&self`, so the initiator is what it was. -/
def Initiator.attempt (self : Initiator P) (msg : Bytes) :
    Initiator P × Except HandshakeError TransportKeys :=
  (self, self.tryFinish msg)

def Initiator.afterAttempts (self : Initiator P) (msgs : List Bytes) : Initiator P :=
  msgs.foldl (fun i m => (i.attempt m).1) self

theorem Initiator.afterAttempts_eq (self : Initiator P) (msgs : List Bytes) :
    self.afterAttempts msgs = self := by
  induction msgs with
  | nil => rfl
  | cons m ms ih => exact ih

/-- **Transcript agreement**, on the message, both identities and the PSK; failed attempts do not
keep the genuine response from finishing. -/
theorem transcript_agreement (hP : P.Correct) {keysI : StaticKeys P} {peerI : PeerPublic P}
    {params : SessionParams} {randI : InitiatorRandomness} {ini : Initiator P} {msg1 : Bytes}
    (hsent : initiate keysI peerI params randI = .ok (ini, msg1)) :
    (∀ keysR msg lookup randR senderIndex msg2 derived keys,
      respond keysR msg lookup randR senderIndex = .ok (msg2, ⟨derived⟩) → ini.tryFinish msg2 = .ok keys →
      (∀ hint e p, lookup hint e = some p → peerIdHint P (P.toBytes p.kemPk) = hint) →
      (∀ (a : Sent keysI peerI params randI ini msg1) (f : Finished ini msg2 keys)
        (b : Responded keysR msg lookup randR senderIndex msg2 derived), Idealised a f b) →
      msg = msg1 ∧ keysR.kemPk = peerI.kemPk
        ∧ ∃ p, lookup keysI.hint params.pskEpoch = some p ∧ p.kemPk = keysI.kemPk ∧ p.psk = peerI.psk)
    ∧ (∀ tried keysR lookup randR senderIndex, keysI.Paired → keysR.Paired → keysR.kemPk = peerI.kemPk →
      lookup keysI.hint params.pskEpoch = some ⟨keysI.kemPk, peerI.psk⟩ →
      ∃ msg2 derived, respond keysR msg1 lookup randR senderIndex = .ok (msg2, ⟨derived⟩)
        ∧ (ini.afterAttempts tried).tryFinish msg2 = .ok derived) := by
  constructor
  · intro keysR msg lookup randR senderIndex msg2 derived keys hresp hfin hhonest hideal
    obtain ⟨a⟩ := initiate_eq_ok.mp hsent
    obtain ⟨b⟩ := respond_eq_ok.mp hresp
    obtain ⟨f⟩ := tryFinish_eq_ok.mp hfin
    obtain ⟨hscripts, hpsk⟩ := scripts_eq a f b (hideal a f b)
    have hfound := found_of_scripts a f b hP hscripts
    refine ⟨msg_eq_of_scripts a f b hscripts, ?_, b.peer, hfound, ?_, ?_⟩
    · have hkey := (hideal a f b).staticKey (init_fields a f b hscripts).2.1
      exact (hP.toBytes_injective hkey).symm
    · exact hP.toBytes_injective ((hideal a f b).hint (hhonest _ _ _ hfound))
    · rw [a.ini_eq] at hpsk
      exact (Vector.toList_inj.mp hpsk).symm
  · intro tried keysR lookup randR senderIndex hI hR hkey hlookup
    obtain ⟨kemPk, psk⟩ := peerI
    obtain rfl : keysR.kemPk = kemPk := hkey
    obtain ⟨ePk, encEmpty, derived, hresp, hfin⟩ :=
      exchange_succeeds hP hI hR hsent hlookup randR senderIndex
    refine ⟨_, derived, hresp, ?_⟩
    rw [Initiator.afterAttempts_eq]
    exact hfin

/-- The reference exchange: the responder worked on the initiator's own bytes, and after two failed
attempts the genuine response still finishes. -/
theorem transcript_agreement_reference : ∃ ini msg1 msg2 derived,
      initiate (referenceKeys 3) ⟨(referenceKeys 5).kemPk, referencePsk⟩ ⟨0, 1⟩ referenceRandI
        = .ok (ini, msg1)
      ∧ respond (referenceKeys 5) msg1 (referenceLookup 3) referenceRandR 8 = .ok (msg2, ⟨derived⟩)
      ∧ (ini.afterAttempts [[], [2]]).tryFinish msg2 = .ok derived
      ∧ ∃ p, referenceLookup 3 (referenceKeys 3).hint 0 = some p ∧ p.psk = referencePsk := by
  obtain ⟨ini, msg1, hsent⟩ := initiate_succeeds reference_correct (referenceKeys 3)
    ⟨(referenceKeys 5).kemPk, referencePsk⟩ ⟨0, 1⟩ referenceRandI
  obtain ⟨hagree, hlater⟩ := transcript_agreement reference_correct hsent
  obtain ⟨msg2, derived, hresp, hfin⟩ := hlater [[], [2]] (referenceKeys 5) (referenceLookup 3)
    referenceRandR 8 (referenceKeys_paired 3) (referenceKeys_paired 5) rfl (referenceLookup_hint 3 0)
  have hfin' := hfin
  obtain ⟨-, -, p, hp, -, hpsk⟩ := hagree (referenceKeys 5) msg1 (referenceLookup 3) referenceRandR 8
    msg2 derived derived hresp hfin' (referenceLookup_honest 3) reference_idealised
  exact ⟨ini, msg1, msg2, derived, hsent, hresp, hfin, p, hp, hpsk⟩

end Karst.Noise
