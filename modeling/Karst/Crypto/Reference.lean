import Karst.Crypto.Primitives

/-!
# A computable instance of the primitives

Results about the handshake assume things of the primitives: correctness, no collision on the
inputs a run evaluates, an AEAD that rejects a message sealed under another key.  `reference` is a
computable instance on which those assumptions can be met and checked.  It is no cryptography: the
hash counts how often it was applied and sums its input, the AEAD appends its key to the plaintext,
and a KEM secret is the pair of key and randomness.
-/

namespace Karst.Crypto

namespace Reference

def zeros (n : ℕ) : Bytes := List.replicate n 0

@[simp] theorem zeros_length (n : ℕ) : (zeros n).length = n := List.length_replicate

def checksum (b : Bytes) : UInt8 := b.sum

def count (n : ℕ) (x : Bytes) : Bytes := (x.headD 0 + 1) :: checksum x :: zeros n

/-- Every 32-byte block carries the successor of the salt's first byte, the salt's second byte
plus the checksum of the input, and the number of the block. -/
def derive (salt ikm : Bytes) (n : ℕ) : Bytes :=
  (List.range n).map fun i =>
    match i % 32 with
    | 0 => salt.headD 0 + 1
    | 1 => salt.getD 1 0 + checksum ikm
    | 2 => UInt8.ofNat (i / 32)
    | _ => 0

def tagOf (key nonce aad plaintext : Bytes) : Bytes :=
  (key ++ zeros 14).take 14 ++ [checksum nonce, checksum (aad ++ plaintext)]

theorem tagOf_length (k n a p : Bytes) : (tagOf k n a p).length = AEAD_TAG := by
  simp [tagOf, AEAD_TAG]

end Reference

open Reference in
def reference : Primitives where
  SecretKey := UInt8
  PublicKey := UInt8
  sha384 := count 46
  sha512 := count 62
  hkdf salt ikm n := if n ≤ 255 * HASH_LEN then some (derive salt ikm n) else none
  hmacSha512 key data := count 62 (key ++ data)
  encrypt k n a p := some (p, tagOf k n a p)
  decrypt k n a ct tag := if tag = tagOf k n a ct then some ct else none
  keypairFromSeed seed := (seed[0], seed[0])
  toBytes pk := pk :: zeros 1567
  fromBytes b := b.head?
  encapsulate pk m := (m[0] :: zeros 1567, pk :: m[0] :: zeros 30)
  decapsulate sk ct := if ct.length = KEM_CIPHERTEXT then some (sk :: ct.headD 0 :: zeros 30)
    else none
  sha384_length x := by simp [count, HASH_LEN]
  sha512_length x := by simp [count]
  hkdf_length salt ikm n okm h := by
    split at h
    · obtain rfl := Option.some.inj h
      simp [derive]
    · simp at h
  hkdf_isSome salt ikm n hn := by simp [hn]
  encrypt_length k n a p ct tag h := by
    simp only [Option.some.injEq, Prod.mk.injEq] at h
    obtain ⟨rfl, rfl⟩ := h
    exact ⟨rfl, tagOf_length k n a p⟩
  decrypt_length k n a ct tag p h := by
    split at h
    · rw [← Option.some.inj h]
    · simp at h
  toBytes_length pk := by simp [KEM_PUBLIC_KEY]
  encapsulate_length pk m := by simp [KEM_CIPHERTEXT]

theorem reference_correct : reference.Correct where
  paired seed m := by simp [reference, KEM_CIPHERTEXT]
  fromBytes_toBytes pk := rfl
  decrypt_encrypt k n a p := ⟨p, Reference.tagOf k n a p, rfl, by simp [reference]⟩

theorem reference_paired (k : UInt8) : reference.Paired k k := by
  intro m
  simp [reference, KEM_CIPHERTEXT]

theorem reference_separates {k k' : Bytes}
    (h : (k ++ Reference.zeros 14).take 14 ≠ (k' ++ Reference.zeros 14).take 14) :
    reference.Separates k k' := by
  intro n a p ct tag henc
  obtain ⟨rfl, rfl⟩ : p = ct ∧ Reference.tagOf k n a p = tag := by simpa [reference] using henc
  refine if_neg fun htag => h ?_
  exact (List.append_inj htag (by simp)).1

end Karst.Crypto
