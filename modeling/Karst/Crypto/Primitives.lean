import Karst.Foundations.ByteStrings

/-!
# Cryptographic primitives

The hash, key-derivation, AEAD and KEM libraries behind `karst-crypto` are not part of the
repository.  `Primitives` takes them as parameters, together with the sizes their documentation
fixes (SHA-384 digests of 48 bytes, 16-byte tags, 1568-byte ML-KEM-1024 keys and ciphertexts, an
HKDF that only refuses absurd lengths).  Nothing about their security is in the structure.

`cipherSeal` and `cipherOpen` are the crate's own `Cipher::seal` and `Cipher::open` (tag appended to
the ciphertext); the in-place forms of the datapath are `encrypt` and `decrypt` themselves.
-/

namespace Karst.Crypto

def SUITE_ID : UInt16 := 0x0002

def KEM_PUBLIC_KEY : ℕ := 1568
def KEM_CIPHERTEXT : ℕ := 1568
def AEAD_TAG : ℕ := 16
def HASH_LEN : ℕ := 48

/-- Reject unknown, reserved, and retired wire identifiers without fallback. -/
def acceptsSuite (id : ℕ) : Bool := id == SUITE_ID.toNat

/-- The external primitives, with the sizes their documentation fixes. -/
structure Primitives where
  SecretKey : Type
  PublicKey : Type
  sha384 : Bytes → Bytes
  sha512 : Bytes → Bytes
  /-- HKDF-SHA-384 with an empty `info`: salt, input, output length. -/
  hkdf : Bytes → Bytes → ℕ → Option Bytes
  hmacSha512 : Bytes → Bytes → Bytes
  /-- AES-256-GCM: key, nonce, associated data, plaintext to ciphertext and detached tag. -/
  encrypt : Bytes → Bytes → Bytes → Bytes → Option (Bytes × Bytes)
  /-- Key, nonce, associated data, ciphertext, tag to plaintext. -/
  decrypt : Bytes → Bytes → Bytes → Bytes → Bytes → Option Bytes
  keypairFromSeed : Vector UInt8 64 → SecretKey × PublicKey
  toBytes : PublicKey → Bytes
  fromBytes : Bytes → Option PublicKey
  encapsulate : PublicKey → Vector UInt8 32 → Bytes × Bytes
  decapsulate : SecretKey → Bytes → Option Bytes
  sha384_length : ∀ x, (sha384 x).length = HASH_LEN
  sha512_length : ∀ x, (sha512 x).length = 64
  hkdf_length : ∀ salt ikm n okm, hkdf salt ikm n = some okm → okm.length = n
  hkdf_isSome : ∀ salt ikm n, n ≤ 255 * HASH_LEN → (hkdf salt ikm n).isSome
  encrypt_length : ∀ k n a p ct tag, encrypt k n a p = some (ct, tag) →
    ct.length = p.length ∧ tag.length = AEAD_TAG
  decrypt_length : ∀ k n a ct tag p, decrypt k n a ct tag = some p → p.length = ct.length
  toBytes_length : ∀ pk, (toBytes pk).length = KEM_PUBLIC_KEY
  encapsulate_length : ∀ pk m, (encapsulate pk m).1.length = KEM_CIPHERTEXT

namespace Primitives

variable (P : Primitives)

def Paired (sk : P.SecretKey) (pk : P.PublicKey) : Prop :=
  ∀ m, P.decapsulate sk (P.encapsulate pk m).1 = some (P.encapsulate pk m).2

/-- Functional correctness of the KEM and the AEAD. -/
structure Correct : Prop where
  paired : ∀ seed, P.Paired (P.keypairFromSeed seed).1 (P.keypairFromSeed seed).2
  fromBytes_toBytes : ∀ pk, P.fromBytes (P.toBytes pk) = some pk
  decrypt_encrypt : ∀ k n a p, ∃ ct tag, P.encrypt k n a p = some (ct, tag) ∧ P.decrypt k n a ct tag = some p

/-- Nothing sealed under `k` opens under `k'`: what an AEAD is trusted for between two keys. -/
def Separates (k k' : Bytes) : Prop :=
  ∀ n a p ct tag, P.encrypt k n a p = some (ct, tag) → P.decrypt k' n a ct tag = none

def cipherSeal (key nonce aad plaintext : Bytes) : Option Bytes :=
  (P.encrypt key nonce aad plaintext).map fun r => r.1 ++ r.2

def cipherOpen (key nonce aad ciphertext : Bytes) : Option Bytes :=
  if ciphertext.length < AEAD_TAG then none
  else P.decrypt key nonce aad (ciphertext.take (ciphertext.length - AEAD_TAG))
    (ciphertext.drop (ciphertext.length - AEAD_TAG))

variable {P}

theorem cipherSeal_length {k n a p c : Bytes} (h : P.cipherSeal k n a p = some c) :
    c.length = p.length + AEAD_TAG := by
  obtain ⟨⟨ct, tag⟩, he, rfl⟩ := Option.map_eq_some_iff.mp h
  obtain ⟨hct, htag⟩ := P.encrypt_length _ _ _ _ _ _ he
  simp [hct, htag]

theorem Correct.toBytes_injective (hP : P.Correct) : Function.Injective P.toBytes := by
  intro a b h
  have := congrArg P.fromBytes h
  rwa [hP.fromBytes_toBytes, hP.fromBytes_toBytes, Option.some.injEq] at this

theorem Correct.cipherOpen_cipherSeal (hP : P.Correct) (k n a p : Bytes) :
    ∃ c, P.cipherSeal k n a p = some c ∧ P.cipherOpen k n a c = some p := by
  obtain ⟨ct, tag, he, hd⟩ := hP.decrypt_encrypt k n a p
  obtain ⟨hct, htag⟩ := P.encrypt_length _ _ _ _ _ _ he
  refine ⟨ct ++ tag, by simp [cipherSeal, he], ?_⟩
  have hlen : ¬ (ct ++ tag).length < AEAD_TAG := by
    rw [List.length_append]
    omega
  have hcut : (ct ++ tag).length - AEAD_TAG = ct.length := by
    rw [List.length_append]
    omega
  rw [cipherOpen, if_neg hlen, hcut, List.take_left, List.drop_left]
  exact hd

end Primitives

end Karst.Crypto
