import Karst.Crypto.Primitives
import Karst.Foundations.MixScript

/-!
# The `PHREATIC` symmetric state

Transcript hash, chaining key and message key (`karst-noise/src/symmetric.rs`).  `mixHash`,
`mixKey` and `mixKeyAndHash` follow the source, early return on a refused derivation included.
The derivations asked for here are far below the length HKDF refuses, so each of the three is a
move of the transcript schedule `schedule P`, and a handshake is a script run by it.
-/

namespace Karst.Noise

open Crypto MixScript Option

def PROTOCOL_LABEL : Bytes := ascii "Karst PHREATIC v1"

def KEY_LEN : ℕ := 32

@[ext] structure TransportKeys where
  initiatorToResponder : Bytes
  responderToInitiator : Bytes

abbrev SymmetricState := State UInt8 Bytes

namespace SymmetricState

variable (P : Primitives)

def new : SymmetricState where
  ck := (P.sha384 PROTOCOL_LABEL).take KEY_LEN
  k := none
  h := P.sha384 PROTOCOL_LABEL

def mixHash (s : SymmetricState) (data : Bytes) : SymmetricState :=
  { s with h := P.sha384 (s.h ++ data) }

def mixKey (s : SymmetricState) (input : Bytes) : SymmetricState :=
  match P.hkdf s.ck input (KEY_LEN * 2) with
  | none => s
  | some okm => { s with ck := okm.take KEY_LEN, k := some (okm.drop KEY_LEN) }

def mixKeyAndHash (s : SymmetricState) (input : Bytes) : SymmetricState :=
  match P.hkdf s.ck input (KEY_LEN * 3) with
  | none => s
  | some okm =>
    let t := (okm.drop KEY_LEN).take KEY_LEN
    { mixHash P { s with ck := okm.take KEY_LEN } t with k := some (okm.drop (KEY_LEN * 2)) }

/-- The all-zero handshake nonce: every handshake key seals one message. -/
def zeroNonce : Bytes := List.replicate 12 0

/-- Seal with the transcript as associated data, then mix the ciphertext in. -/
def encryptAndHash (s : SymmetricState) (plaintext : Bytes) : Option (SymmetricState × Bytes) := do
  let k ← s.k
  let ct ← P.cipherSeal k zeroNonce s.h plaintext
  return (mixHash P s ct, ct)

/-- The transcript is mixed with the ciphertext on this side too, so both stay in step. -/
def decryptAndHash (s : SymmetricState) (ciphertext : Bytes) : Option (SymmetricState × Bytes) := do
  let k ← s.k
  let pt ← P.cipherOpen k zeroNonce s.h ciphertext
  return (mixHash P s ciphertext, pt)

def split (s : SymmetricState) : TransportKeys :=
  match P.hkdf s.ck [] (KEY_LEN * 2) with
  | none => ⟨List.replicate KEY_LEN 0, List.replicate KEY_LEN 0⟩
  | some okm => ⟨okm.take KEY_LEN, okm.drop KEY_LEN⟩

/-! ### The transcript schedule -/

/-- SHA-384 and HKDF-SHA-384 as a transcript schedule. -/
def schedule : Schedule UInt8 Bytes where
  digest := P.sha384
  ratchet ck input :=
    let okm := (P.hkdf ck input (KEY_LEN * 2)).getD []
    (okm.take KEY_LEN, okm.drop KEY_LEN)
  ratchetTag ck input :=
    let okm := (P.hkdf ck input (KEY_LEN * 3)).getD []
    (okm.take KEY_LEN, (okm.drop KEY_LEN).take KEY_LEN, okm.drop (KEY_LEN * 2))

theorem hkdf_key_isSome (ck input : Bytes) {n : ℕ} (hn : n ≤ 3) :
    ∃ okm, P.hkdf ck input (KEY_LEN * n) = some okm := by
  apply isSome_iff_exists.mp
  apply P.hkdf_isSome
  simp only [KEY_LEN, HASH_LEN]
  omega

theorem mixHash_eq (s : SymmetricState) (d : Bytes) : mixHash P s d = (schedule P).step s (.hash d) := rfl

theorem mixKey_eq (s : SymmetricState) (x : Bytes) : mixKey P s x = (schedule P).step s (.key x) := by
  obtain ⟨okm, hokm⟩ := hkdf_key_isSome P s.ck x (show 2 ≤ 3 by decide)
  simp [mixKey, Schedule.step, schedule, hokm]

theorem mixKeyAndHash_eq (s : SymmetricState) (x : Bytes) :
    mixKeyAndHash P s x = (schedule P).step s (.keyAndHash x) := by
  obtain ⟨okm, hokm⟩ := hkdf_key_isSome P s.ck x (show 3 ≤ 3 by decide)
  simp [mixKeyAndHash, mixHash, Schedule.step, schedule, hokm]

variable {P}

variable {s : SymmetricState}

theorem encryptAndHash_eq_some (hP : P.Correct) {k : Bytes} (hk : s.k = some k) (p : Bytes) :
    ∃ s' ct, encryptAndHash P s p = some (s', ct) := by
  obtain ⟨ct, hseal, -⟩ := hP.cipherOpen_cipherSeal k zeroNonce s.h p
  exact ⟨mixHash P s ct, ct, by simp [encryptAndHash, hk, hseal]⟩

variable {s' : SymmetricState} {p ct : Bytes}

theorem encryptAndHash_inv (h : encryptAndHash P s p = some (s', ct)) :
    ∃ k, s.k = some k ∧ P.cipherSeal k zeroNonce s.h p = some ct ∧ s' = mixHash P s ct := by
  obtain ⟨k, hk, h⟩ := bind_eq_some_iff.mp h
  obtain ⟨c, hs, h⟩ := bind_eq_some_iff.mp h
  obtain ⟨rfl, rfl⟩ := Prod.mk.inj (some.inj h)
  exact ⟨k, hk, hs, rfl⟩

theorem decryptAndHash_inv (h : decryptAndHash P s ct = some (s', p)) :
    ∃ k, s.k = some k ∧ P.cipherOpen k zeroNonce s.h ct = some p ∧ s' = mixHash P s ct := by
  obtain ⟨k, hk, h⟩ := bind_eq_some_iff.mp h
  obtain ⟨q, hs, h⟩ := bind_eq_some_iff.mp h
  obtain ⟨rfl, rfl⟩ := Prod.mk.inj (some.inj h)
  exact ⟨k, hk, hs, rfl⟩

/-- **Both sides stay in step.**  What one state encrypted the same state decrypts, and both end
with the same transcript. -/
theorem decryptAndHash_of_encrypt (hP : P.Correct) (h : encryptAndHash P s p = some (s', ct)) :
    decryptAndHash P s ct = some (s', p) ∧ ct.length = p.length + AEAD_TAG := by
  obtain ⟨k, hk, hseal, rfl⟩ := encryptAndHash_inv h
  obtain ⟨c, hseal', hopen⟩ := hP.cipherOpen_cipherSeal k zeroNonce s.h p
  obtain rfl : ct = c := some.inj (hseal.symm.trans hseal')
  exact ⟨by simp [decryptAndHash, hk, hopen], Primitives.cipherSeal_length hseal⟩

end SymmetricState

end Karst.Noise
