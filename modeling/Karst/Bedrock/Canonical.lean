import Karst.Bedrock.Log

/-!
# Canonical encodings

Every reader of the log's wire format inverts its writer.  The cursor's primitives come first, then the
bodies, one equivalence each, and the entries and the log over them.  The readers of the bodies are
taken with any reader of texts, since only the texts are read differently elsewhere.
-/

namespace Karst.Bedrock

open Cursor Reader
open List hiding Vector

/-! ### The cursor -/

theorem u32_inverts : Inverts u32 (fun v => beBytes 4 v.toNat) fun _ => True := by
  refine ((inverts_take Error.malformed 4).map (fun b => UInt32.ofNat (beValue b))
    (fun v => beBytes 4 v.toNat) ?_).congr ?_ fun _ _ => rfl
  · intro b hb
    have hlt : beValue b < 2 ^ 32 := beValue_lt hb
    rw [UInt32.toNat_ofNat_of_lt' hlt, beBytes_beValue hb]
  · intro v
    have hv : beValue (beBytes 4 v.toNat) = v.toNat := beValue_beBytes v.toNat_lt
    rw [hv, UInt32.ofNat_toNat]
    exact ⟨fun _ => ⟨beBytes_length 4 _, rfl⟩, fun _ => trivial⟩

theorem u64_inverts : Inverts u64 (fun v => beBytes 8 v.toNat) fun _ => True := by
  refine ((inverts_take Error.malformed 8).map (fun b => UInt64.ofNat (beValue b))
    (fun v => beBytes 8 v.toNat) ?_).congr ?_ fun _ _ => rfl
  · intro b hb
    have hlt : beValue b < 2 ^ 64 := beValue_lt hb
    rw [UInt64.toNat_ofNat_of_lt' hlt, beBytes_beValue hb]
  · intro v
    have hv : beValue (beBytes 8 v.toNat) = v.toNat := beValue_beBytes v.toNat_lt
    rw [hv, UInt64.ofNat_toNat]
    exact ⟨fun _ => ⟨beBytes_length 8 _, rfl⟩, fun _ => trivial⟩

/-- What a 64-bit signed field can carry. -/
def IsTime (t : ℤ) : Prop := -2 ^ 63 ≤ t ∧ t < 2 ^ 63

theorem toBits64_lt (t : ℤ) : toBits64 t < 2 ^ 64 := by
  unfold toBits64
  omega

theorem ofBits64_isTime (v : UInt64) : IsTime (ofBits64 v) := by
  have hv := v.toNat_lt
  unfold IsTime ofBits64
  split <;> omega

theorem toBits64_ofBits64 (v : UInt64) : toBits64 (ofBits64 v) = v.toNat := by
  have hv := v.toNat_lt
  unfold toBits64 ofBits64
  split <;> omega

theorem ofBits64_toBits64 {t : ℤ} (h : IsTime t) : ofBits64 (UInt64.ofNat (toBits64 t)) = t := by
  have hrange : -2 ^ 63 ≤ t ∧ t < 2 ^ 63 := h
  rw [ofBits64, UInt64.toNat_ofNat_of_lt' (toBits64_lt t)]
  unfold toBits64
  split <;> omega

theorem readTime_inverts : Inverts readTime (fun t => beBytes 8 (toBits64 t)) IsTime := by
  refine (u64_inverts.map ofBits64 (fun t => UInt64.ofNat (toBits64 t)) ?_).congr ?_ ?_
  · intro v _
    rw [toBits64_ofBits64, UInt64.ofNat_toNat]
  · intro t
    constructor
    · intro ht
      exact ⟨trivial, (ofBits64_toBits64 ht).symm⟩
    · intro ht
      rw [ht.2]
      exact ofBits64_isTime _
  · intro t _
    rw [UInt64.toNat_ofNat_of_lt' (toBits64_lt t)]

theorem min_eq_toNat {n : ℕ} (h : n < 2 ^ 32) : min n (2 ^ 32 - 1) = (UInt32.ofNat n).toNat := by
  rw [UInt32.toNat_ofNat_of_lt' h]
  omega

theorem lp_inverts : Inverts lp putLp (·.length < 2 ^ 32) := by
  intro b field rest
  show (u32 >>= fun n => take n.toNat) b = _ ↔ _
  rw [u32_inverts.bind_eq_ok]
  constructor
  · intro hrun
    obtain ⟨n, mid, ⟨-, hb⟩, htake⟩ := hrun
    obtain ⟨hlen, hmid⟩ := (inverts_take Error.malformed n.toNat mid field rest).mp htake
    have hlt : field.length < 2 ^ 32 := by
      rw [hlen]
      exact n.toNat_lt
    refine ⟨hlt, ?_⟩
    rw [hb, hmid, putLp, min_eq_toNat hlt, hlen, UInt32.ofNat_toNat, append_assoc]
  · intro hfield
    obtain ⟨hlt, hb⟩ := hfield
    refine ⟨UInt32.ofNat field.length, field ++ rest, ⟨trivial, ?_⟩, ?_⟩
    · rw [hb, putLp, min_eq_toNat hlt, append_assoc]
    · refine (inverts_take Error.malformed _ _ field rest).mpr ⟨?_, rfl⟩
      rw [UInt32.toNat_ofNat_of_lt' hlt]

/-- A text that fits its field. -/
def IsText (b : Bytes) : Prop := b.length < 2 ^ 32 ∧ validUtf8 b = true

theorem lpStr_inverts : Inverts lpStr putLp IsText := by
  intro b field rest
  show (lp >>= fun b => if validUtf8 b then pure b else throw .malformed) b = _ ↔ _
  rw [lp_inverts.bind_eq_ok]
  constructor
  · intro hrun
    obtain ⟨field', mid, ⟨hlen, hb⟩, hcheck⟩ := hrun
    by_cases hu : validUtf8 field' = true
    · rw [if_pos hu] at hcheck
      have heq : field' = field ∧ mid = rest := Prod.mk.inj (Except.ok.inj hcheck)
      rw [← heq.1, ← heq.2]
      exact ⟨⟨hlen, hu⟩, hb⟩
    · rw [if_neg hu] at hcheck
      cases hcheck
  · intro hfield
    refine ⟨field, rest, ⟨hfield.1.1, hfield.2⟩, ?_⟩
    rw [if_pos hfield.1.2]
    rfl

theorem keyList_eq_many (size n : ℕ) :
    keyList size n = many (lp >>= fun k => if k.length ≠ size then throw .malformed else pure k) n := by
  induction n with
  | zero => rfl
  | succ n ih =>
    rw [keyList, many, bind_assoc]
    congr 1
    funext k
    by_cases hk : k.length ≠ size
    · rw [if_pos hk, if_pos hk]
      rfl
    · rw [if_neg hk, if_neg hk, ih]
      rfl

theorem keyList_inverts {size : ℕ} (hsize : size < 2 ^ 32) (n : ℕ) :
    Inverts (keyList size n) (fun ks => (ks.map putLp).flatten)
      fun ks => ks.length = n ∧ ∀ k ∈ ks, k.length = size := by
  rw [keyList_eq_many]
  apply inverts_many
  intro b k rest
  rw [lp_inverts.bind_eq_ok]
  constructor
  · intro hrun
    obtain ⟨k', mid, ⟨-, hb⟩, hcheck⟩ := hrun
    by_cases hk : k'.length ≠ size
    · rw [if_pos hk] at hcheck
      cases hcheck
    · rw [if_neg hk] at hcheck
      have heq : k' = k ∧ mid = rest := Prod.mk.inj (Except.ok.inj hcheck)
      rw [← heq.1, ← heq.2]
      exact ⟨not_not.mp hk, hb⟩
  · intro hk
    refine ⟨k, rest, ⟨by rw [hk.1]; exact hsize, hk.2⟩, ?_⟩
    rw [if_neg (not_not.mpr hk.1)]
    rfl

def KeysFit (size : ℕ) (max : UInt32) (ks : List Bytes) : Prop :=
  ks.length ≤ max.toNat ∧ ∀ k ∈ ks, k.length = size

section

variable {size : ℕ} {max : UInt32}

variable {b : Bytes}

theorem counted_eq_ok (hsize : size < 2 ^ 32) {g : UInt32 → Cursor (List Bytes)}
    {Q : UInt32 → Prop} (hg : ∀ n b r, g n b = .ok r ↔ Q n ∧ keyList size n.toNat b = .ok r)
    {rest : Bytes} {ks : List Bytes} : (u32 >>= g) b = .ok (ks, rest)
      ↔ (ks.length < 2 ^ 32 ∧ Q (UInt32.ofNat ks.length) ∧ ∀ k ∈ ks, k.length = size)
        ∧ b = putKeys ks ++ rest := by
  rw [u32_inverts.bind_eq_ok]
  constructor
  · intro hrun
    obtain ⟨n, mid, ⟨-, hb⟩, hrun⟩ := hrun
    obtain ⟨hn, hlist⟩ := (hg n mid _).mp hrun
    obtain ⟨⟨hlen, hall⟩, hmid⟩ := (keyList_inverts hsize n.toNat mid ks rest).mp hlist
    have hlt : ks.length < 2 ^ 32 := by
      rw [hlen]
      exact n.toNat_lt
    have hcount : UInt32.ofNat ks.length = n := by rw [hlen, UInt32.ofNat_toNat]
    refine ⟨⟨hlt, by rw [hcount]; exact hn, hall⟩, ?_⟩
    rw [hb, hmid, putKeys, min_eq_toNat hlt, hcount, append_assoc]
  · intro hks
    obtain ⟨⟨hlt, hn, hall⟩, hb⟩ := hks
    refine ⟨UInt32.ofNat ks.length, (ks.map putLp).flatten ++ rest, ⟨trivial, ?_⟩, ?_⟩
    · rw [hb, putKeys, min_eq_toNat hlt, append_assoc]
    · refine (hg _ _ _).mpr ⟨hn, (keyList_inverts hsize _ _ ks rest).mpr ⟨⟨?_, hall⟩, rfl⟩⟩
      rw [UInt32.toNat_ofNat_of_lt' hlt]

theorem count_le_iff {n : ℕ} : n < 2 ^ 32 ∧ ¬ max < UInt32.ofNat n ↔ n ≤ max.toNat := by
  have hmax := max.toNat_lt
  constructor
  · intro hn
    have hle := UInt32.le_iff_toNat_le.mp (UInt32.not_lt.mp hn.2)
    rwa [UInt32.toNat_ofNat_of_lt' hn.1] at hle
  · intro hn
    have hlt : n < 2 ^ 32 := by omega
    refine ⟨hlt, ?_⟩
    rw [UInt32.not_lt, UInt32.le_iff_toNat_le, UInt32.toNat_ofNat_of_lt' hlt]
    exact hn

theorem keys_inverts (hsize : size < 2 ^ 32) : Inverts (keys size max) putKeys (KeysFit size max) := by
  intro b ks rest
  refine (counted_eq_ok (Q := fun n => ¬ max < n) hsize fun n b r => Reader.guard_eq_ok).trans ?_
  rw [KeysFit, ← count_le_iff, and_assoc, and_assoc, and_assoc, and_assoc]

theorem finish_eq_ok {α : Type} {f : Unit → Cursor α} {r : α × Bytes} :
    (finish >>= f) b = .ok r ↔ b = [] ∧ f () [] = .ok r := by
  cases b with
  | nil => exact ⟨fun h => ⟨rfl, h⟩, And.right⟩
  | cons x b => exact iff_of_false (fun h => by cases h) fun h => by cases h.1

theorem optionalKeys_present (hsize : size < 2 ^ 32) {x : UInt8} {rest : Bytes} {ks : List Bytes} :
    optionalKeys size max (x :: b) = .ok (ks, rest)
      ↔ (ks ≠ [] ∧ KeysFit size max ks) ∧ x :: b = putKeys ks ++ rest := by
  have hguards : ∀ (n : UInt32) (b : Bytes) (r : List Bytes × Bytes),
      (if n = 0 then throw .malformed >>= fun _ : Unit => (if max < n then throw .malformed >>=
        fun _ : Unit => keyList size n.toNat else keyList size n.toNat : Cursor (List Bytes))
      else if max < n then throw .malformed >>= fun _ : Unit => keyList size n.toNat
        else keyList size n.toNat : Cursor (List Bytes)) b = .ok r
      ↔ (n ≠ 0 ∧ ¬ max < n) ∧ keyList size n.toNat b = .ok r := by
    intro n b r
    rw [Reader.guard_eq_ok, Reader.guard_eq_ok, and_assoc]
  refine (counted_eq_ok hsize hguards).trans ?_
  have hzero : ks.length < 2 ^ 32 → (UInt32.ofNat ks.length ≠ 0 ↔ ks ≠ []) := by
    intro hlt
    rw [ne_eq, ← UInt32.toNat_inj, UInt32.toNat_ofNat_of_lt' hlt, ne_eq, ← length_eq_zero_iff]
    rfl
  rw [KeysFit, ← count_le_iff]
  constructor
  · intro h
    exact ⟨⟨(hzero h.1.1).mp h.1.2.1.1, ⟨h.1.1, h.1.2.1.2⟩, h.1.2.2⟩, h.2⟩
  · intro h
    exact ⟨⟨h.1.2.1.1, ⟨(hzero h.1.2.1.1).mpr h.1.1, h.1.2.1.2⟩, h.1.2.2⟩, h.2⟩

theorem optionalKeys_eq_ok {α : Type} (hsize : size < 2 ^ 32) {f : List Bytes → Cursor α}
    {r : α × Bytes} : (optionalKeys size max >>= fun ks => finish >>= fun _ => f ks) b = .ok r
      ↔ ∃ ks, (KeysFit size max ks ∧ b = putOptionalKeys ks) ∧ f ks [] = .ok r := by
  have hpresent : ∀ ks : List Bytes, putKeys ks ≠ [] := by
    intro ks hks
    have hlen := congrArg length hks
    rw [putKeys, length_append, beBytes_length, length_nil] at hlen
    omega
  cases b with
  | nil =>
    constructor
    · intro hrun
      exact ⟨[], ⟨⟨Nat.zero_le _, fun k hk => by cases hk⟩, rfl⟩, hrun⟩
    · intro hks
      obtain ⟨ks, ⟨-, hb⟩, hf⟩ := hks
      cases ks with
      | nil => exact hf
      | cons k ks => exact absurd hb.symm (hpresent (k :: ks))
  | cons x b =>
    rw [bind_apply, Karst.bind_eq_ok]
    constructor
    · intro hrun
      obtain ⟨⟨ks, rest⟩, hks, hf⟩ := hrun
      obtain ⟨⟨hne, hfit⟩, hb⟩ := (optionalKeys_present hsize).mp hks
      obtain ⟨hrest, hf⟩ := finish_eq_ok.mp hf
      refine ⟨ks, ⟨hfit, ?_⟩, hf⟩
      have hempty : ks.isEmpty = false := isEmpty_eq_false_iff.mpr hne
      rw [hb, putOptionalKeys, hempty, show rest = [] from hrest, append_nil]
      rfl
    · intro hks
      obtain ⟨ks, ⟨hfit, hb⟩, hf⟩ := hks
      cases ks with
      | nil => cases hb
      | cons k ks =>
        refine ⟨(k :: ks, []), (optionalKeys_present hsize).mpr ⟨⟨cons_ne_nil _ _, hfit⟩, ?_⟩,
          finish_eq_ok.mpr ⟨rfl, hf⟩⟩
        rw [hb, append_nil]
        rfl

end

/-! ### Bodies -/

-- The texts are left open: what one implementation reads as a text another may refuse.
structure Genesis.Fits (T : Bytes → Prop) (g : Genesis) : Prop where
  zone : T g.zone
  roots : KeysFit ROOT_PUBLIC_KEY MAX_SIGNERS g.roots
  authorities : KeysFit AUTHORITY_PUBLIC_KEY MAX_SIGNERS g.authorities
  anchorKeys : KeysFit ANCHOR_PUBLIC_KEY MAX_SIGNERS g.anchorKeys

def AuthorityList.Encodable (a : AuthorityList) : Prop :=
  KeysFit AUTHORITY_PUBLIC_KEY MAX_SIGNERS a.authorities ∧ KeysFit ANCHOR_PUBLIC_KEY MAX_SIGNERS a.anchorKeys

structure NodeSign.Fits (T : Bytes → Prop) (n : NodeSign) : Prop where
  handle : T n.handle
  handle_nonempty : n.handle ≠ []
  identityKey : n.identityKey.length = NODE_IDENTITY_KEY
  kemPublicKey : n.kemPublicKey.length = KEM_PUBLIC_KEY
  notBefore : IsTime n.notBefore
  expiry : IsTime n.expiry

structure NodeRevoke.Fits (T : Bytes → Prop) (r : NodeRevoke) : Prop where
  handle : T r.handle
  handle_nonempty : r.handle ≠ []
  reason : T r.reason
  effective : IsTime r.effective

abbrev Genesis.Encodable := Genesis.Fits IsText

abbrev NodeSign.Encodable := NodeSign.Fits IsText

abbrev NodeRevoke.Encodable := NodeRevoke.Fits IsText

section

variable {text : Cursor Bytes} {T : Bytes → Prop} (htext : Inverts text putLp T)

include htext

variable {b rest : Bytes}

theorem genesis_eq_ok {g : Genesis} : (do
      let zone ← text
      let roots ← keys ROOT_PUBLIC_KEY MAX_SIGNERS
      let k ← u32
      let authorities ← keys AUTHORITY_PUBLIC_KEY MAX_SIGNERS
      let q ← u32
      let anchorKeys ← optionalKeys ANCHOR_PUBLIC_KEY MAX_SIGNERS
      finish
      return { zone, roots, k, authorities, q, anchorKeys } : Cursor Genesis) b = .ok (g, rest)
      ↔ g.Fits T ∧ b = genesisBody g ∧ rest = [] := by
  have hkeys : ∀ {size}, size = 2592 → Inverts (keys size MAX_SIGNERS) putKeys (KeysFit size MAX_SIGNERS) :=
    fun hsize => keys_inverts (by rw [hsize]; decide)
  simp only [htext.bind_eq_ok, (hkeys (show ROOT_PUBLIC_KEY = 2592 from rfl)).bind_eq_ok,
    u32_inverts.bind_eq_ok, (hkeys (show AUTHORITY_PUBLIC_KEY = 2592 from rfl)).bind_eq_ok,
    optionalKeys_eq_ok (show ANCHOR_PUBLIC_KEY < 2 ^ 32 by decide), pure_apply]
  constructor
  · intro hrun
    obtain ⟨zone, _, ⟨hz, rfl⟩, roots, _, ⟨hr, rfl⟩, k, _, ⟨-, rfl⟩, authorities, _, ⟨ha, rfl⟩, q, _,
      ⟨-, rfl⟩, anchorKeys, ⟨hk, rfl⟩, hlast⟩ := hrun
    cases hlast
    refine ⟨⟨hz, hr, ha, hk⟩, ?_, rfl⟩
    simp only [genesisBody, append_assoc]
  · intro hg
    obtain ⟨⟨hz, hr, ha, hk⟩, rfl, rfl⟩ := hg
    simp only [genesisBody, append_assoc]
    exact ⟨g.zone, _, ⟨hz, rfl⟩, g.roots, _, ⟨hr, rfl⟩, g.k, _, ⟨trivial, rfl⟩, g.authorities, _,
      ⟨ha, rfl⟩, g.q, _, ⟨trivial, rfl⟩, g.anchorKeys, ⟨hk, rfl⟩, rfl⟩

theorem nodeSign_eq_ok {n : NodeSign} : (do
      let handle ← text
      let identityKey ← lp
      let kemPublicKey ← lp
      let notBefore ← readTime
      let expiry ← readTime
      finish
      if identityKey.length ≠ NODE_IDENTITY_KEY ∨ kemPublicKey.length ≠ KEM_PUBLIC_KEY
          ∨ handle.isEmpty then throw .malformed
      return { handle, identityKey, kemPublicKey, notBefore, expiry } : Cursor NodeSign) b = .ok (n, rest)
      ↔ n.Fits T ∧ b = nodeSignBody n ∧ rest = [] := by
  simp only [htext.bind_eq_ok, lp_inverts.bind_eq_ok, readTime_inverts.bind_eq_ok, finish_eq_ok,
    Reader.guard_eq_ok, pure_apply, not_or, not_not, List.isEmpty_iff]
  constructor
  · intro hrun
    obtain ⟨handle, _, ⟨hh, rfl⟩, identityKey, _, ⟨-, rfl⟩, kem, _, ⟨-, rfl⟩, notBefore, _,
      ⟨hn, rfl⟩, expiry, _, ⟨he, rfl⟩, rfl, ⟨hi, hk, hne⟩, hlast⟩ := hrun
    cases hlast
    refine ⟨⟨hh, hne, hi, hk, hn, he⟩, ?_, rfl⟩
    simp only [nodeSignBody, append_assoc, append_nil]
  · intro hn
    obtain ⟨⟨hh, hne, hi, hk, hn, he⟩, rfl, rfl⟩ := hn
    have hsize : n.identityKey.length < 2 ^ 32 ∧ n.kemPublicKey.length < 2 ^ 32 := by
      rw [hi, hk]
      decide
    refine ⟨n.handle, _, ⟨hh, ?_⟩, n.identityKey, _, ⟨hsize.1, rfl⟩, n.kemPublicKey, _, ⟨hsize.2, rfl⟩,
      n.notBefore, _, ⟨hn, rfl⟩, n.expiry, _, ⟨he, rfl⟩, rfl, ⟨hi, hk, hne⟩, rfl⟩
    simp only [nodeSignBody, append_assoc, append_nil]

theorem nodeRevoke_eq_ok {n : NodeRevoke} : (do
      let handle ← text
      let reason ← text
      let effective ← readTime
      finish
      if handle.isEmpty then throw .malformed
      return { handle, reason, effective } : Cursor NodeRevoke) b = .ok (n, rest)
      ↔ n.Fits T ∧ b = nodeRevokeBody n ∧ rest = [] := by
  simp only [htext.bind_eq_ok, readTime_inverts.bind_eq_ok, finish_eq_ok, Reader.guard_eq_ok,
    pure_apply, List.isEmpty_iff]
  constructor
  · intro hrun
    obtain ⟨handle, _, ⟨hh, rfl⟩, reason, _, ⟨hr, rfl⟩, effective, _, ⟨he, rfl⟩, rfl, hne, hlast⟩ :=
      hrun
    cases hlast
    refine ⟨⟨hh, hne, hr, he⟩, ?_, rfl⟩
    simp only [nodeRevokeBody, append_assoc, append_nil]
  · intro hn
    obtain ⟨⟨hh, hne, hr, he⟩, rfl, rfl⟩ := hn
    refine ⟨n.handle, _, ⟨hh, ?_⟩, n.reason, _, ⟨hr, rfl⟩, n.effective, _, ⟨he, rfl⟩, rfl, hne, rfl⟩
    simp only [nodeRevokeBody, append_assoc, append_nil]

theorem disable_eq_ok {reason : Bytes} : (do
      let reason ← text
      finish
      return reason : Cursor Bytes) b = .ok (reason, rest)
      ↔ T reason ∧ b = disableBody reason ∧ rest = [] := by
  simp only [htext.bind_eq_ok, finish_eq_ok, pure_apply]
  constructor
  · intro hrun
    obtain ⟨reason', _, ⟨hr, rfl⟩, rfl, hlast⟩ := hrun
    cases hlast
    exact ⟨hr, append_nil _, rfl⟩
  · intro hr
    obtain ⟨hr, rfl, rfl⟩ := hr
    exact ⟨reason, [], ⟨hr, (append_nil _).symm⟩, rfl, rfl⟩

end

variable {b rest : Bytes}

theorem authorityList_eq_ok {a : AuthorityList} : (do
      let authorities ← keys AUTHORITY_PUBLIC_KEY MAX_SIGNERS
      let q ← u32
      let anchorKeys ← optionalKeys ANCHOR_PUBLIC_KEY MAX_SIGNERS
      finish
      return { authorities, q, anchorKeys } : Cursor AuthorityList) b = .ok (a, rest)
      ↔ a.Encodable ∧ b = authorityListBody a ∧ rest = [] := by
  have hkeys : Inverts (keys AUTHORITY_PUBLIC_KEY MAX_SIGNERS) putKeys
      (KeysFit AUTHORITY_PUBLIC_KEY MAX_SIGNERS) := keys_inverts (by decide)
  simp only [hkeys.bind_eq_ok, u32_inverts.bind_eq_ok,
    optionalKeys_eq_ok (show ANCHOR_PUBLIC_KEY < 2 ^ 32 by decide), pure_apply]
  constructor
  · intro hrun
    obtain ⟨authorities, _, ⟨ha, rfl⟩, q, _, ⟨-, rfl⟩, anchorKeys, ⟨hk, rfl⟩, hlast⟩ := hrun
    cases hlast
    refine ⟨⟨ha, hk⟩, ?_, rfl⟩
    simp only [authorityListBody, append_assoc]
  · intro ha
    obtain ⟨⟨ha, hk⟩, rfl, rfl⟩ := ha
    simp only [authorityListBody, append_assoc]
    exact ⟨a.authorities, _, ⟨ha, rfl⟩, a.q, _, ⟨trivial, rfl⟩, a.anchorKeys, ⟨hk, rfl⟩, rfl⟩

theorem quorumChange_eq_ok {q : UInt32} : (do
      let q ← u32
      finish
      return q : Cursor UInt32) b = .ok (q, rest) ↔ b = quorumChangeBody q ∧ rest = [] := by
  simp only [u32_inverts.bind_eq_ok, finish_eq_ok, pure_apply]
  constructor
  · intro hrun
    obtain ⟨q', _, ⟨-, rfl⟩, rfl, hlast⟩ := hrun
    cases hlast
    exact ⟨append_nil _, rfl⟩
  · intro hq
    obtain ⟨rfl, rfl⟩ := hq
    exact ⟨q, [], ⟨trivial, (append_nil _).symm⟩, rfl, rfl⟩

theorem anchor_eq_ok {a : Anchor} : (do
      let auditHead ← lp
      let auditSeq ← u64
      finish
      return { auditHead, auditSeq } : Cursor Anchor) b = .ok (a, rest)
      ↔ a.auditHead.length < 2 ^ 32 ∧ b = anchorBody a ∧ rest = [] := by
  simp only [lp_inverts.bind_eq_ok, u64_inverts.bind_eq_ok, finish_eq_ok, pure_apply]
  constructor
  · intro hrun
    obtain ⟨auditHead, _, ⟨hh, rfl⟩, auditSeq, _, ⟨-, rfl⟩, rfl, hlast⟩ := hrun
    cases hlast
    refine ⟨hh, ?_, rfl⟩
    simp only [anchorBody, append_nil]
  · intro ha
    obtain ⟨hh, rfl, rfl⟩ := ha
    refine ⟨a.auditHead, _, ⟨hh, ?_⟩, a.auditSeq, _, ⟨trivial, rfl⟩, rfl, rfl⟩
    simp only [anchorBody, append_nil]

theorem parseGenesis_eq_ok {g : Genesis} : parseGenesis b = .ok g ↔ g.Encodable ∧ b = genesisBody g := by
  rw [parseGenesis, parse_eq_ok]
  simp only [genesis_eq_ok lpStr_inverts]
  simp

theorem parseAuthorityList_eq_ok {a : AuthorityList} :
    parseAuthorityList b = .ok a ↔ a.Encodable ∧ b = authorityListBody a := by
  rw [parseAuthorityList, parse_eq_ok]
  simp only [authorityList_eq_ok]
  simp

theorem parseNodeSign_eq_ok {n : NodeSign} : parseNodeSign b = .ok n ↔ n.Encodable ∧ b = nodeSignBody n := by
  rw [parseNodeSign, parse_eq_ok]
  simp only [nodeSign_eq_ok lpStr_inverts]
  simp

theorem parseNodeRevoke_eq_ok {n : NodeRevoke} :
    parseNodeRevoke b = .ok n ↔ n.Encodable ∧ b = nodeRevokeBody n := by
  rw [parseNodeRevoke, parse_eq_ok]
  simp only [nodeRevoke_eq_ok lpStr_inverts]
  simp

theorem parseQuorumChange_eq_ok {q : UInt32} :
    parseQuorumChange b = .ok q ↔ True ∧ b = quorumChangeBody q := by
  rw [parseQuorumChange, parse_eq_ok]
  simp only [quorumChange_eq_ok]
  simp

theorem parseAnchor_eq_ok {a : Anchor} :
    parseAnchor b = .ok a ↔ a.auditHead.length < 2 ^ 32 ∧ b = anchorBody a := by
  rw [parseAnchor, parse_eq_ok]
  simp only [anchor_eq_ok]
  simp

theorem parseDisable_eq_ok {reason : Bytes} :
    parseDisable b = .ok reason ↔ IsText reason ∧ b = disableBody reason := by
  rw [parseDisable, parse_eq_ok]
  simp only [disable_eq_ok lpStr_inverts]
  simp

/-! ### Entries and the log -/

theorem Op.parse_eq_some {s : Bytes} {op : Op} : Op.parse s = some op ↔ s = ascii op.asStr := by
  constructor
  · intro h
    have hfound := find?_some h
    exact of_decide_eq_true hfound
  · intro h
    rw [h]
    cases op <;> decide

theorem Op.text_asStr (op : Op) : IsText (ascii op.asStr) := by
  cases op <;> exact ⟨by decide, by decide⟩

theorem signature_inverts : Inverts Signature.read Signature.encode fun s => s.sig.length < 2 ^ 32 := by
  intro b s rest
  rw [Signature.read, u32_inverts.bind_eq_ok]
  simp only [lp_inverts.bind_eq_ok, pure_apply]
  constructor
  · intro hrun
    obtain ⟨signerIndex, _, ⟨-, rfl⟩, sig, _, ⟨hs, rfl⟩, hlast⟩ := hrun
    cases hlast
    refine ⟨hs, ?_⟩
    simp only [Signature.encode, append_assoc]
  · intro hs
    obtain ⟨hs, rfl⟩ := hs
    refine ⟨s.signerIndex, _, ⟨trivial, ?_⟩, s.sig, rest, ⟨hs, rfl⟩, rfl⟩
    simp only [Signature.encode, append_assoc]

structure FieldsFit (time : ℤ) (body : Bytes) (sigs : List Signature) : Prop where
  time : IsTime time
  body : body.length < 2 ^ 32
  sigs_count : sigs.length ≤ MAX_SIGNERS.toNat
  sigs : ∀ s ∈ sigs, s.sig.length < 2 ^ 32

def Entry.Fits (e : Entry) : Prop := FieldsFit e.time e.body e.sigs

variable {α : Type}

theorem many_eq_ok {β : Type} {c : Cursor α} {enc : α → Bytes} {ok : α → Prop} {m : UInt32}
    (h : Inverts c enc ok) {f : List α → Cursor β} {r : β × Bytes} :
    (u32 >>= fun n => if m < n then throw .malformed >>= fun _ : Unit =>
        many c n.toNat >>= fun as => finish >>= fun _ => f as
      else many c n.toNat >>= fun as => finish >>= fun _ => f as) b = .ok r
      ↔ ∃ as : List α, (as.length ≤ m.toNat ∧ ∀ a ∈ as, ok a)
        ∧ b = beBytes 4 (min as.length (2 ^ 32 - 1)) ++ (as.map enc).flatten ∧ f as [] = .ok r := by
  simp only [u32_inverts.bind_eq_ok, Reader.guard_eq_ok, (inverts_many h _).bind_eq_ok, finish_eq_ok]
  constructor
  · intro hrun
    obtain ⟨n, _, ⟨-, rfl⟩, hmax, as, _, ⟨⟨hlen, hall⟩, rfl⟩, rfl, hf⟩ := hrun
    have hcount : UInt32.ofNat as.length = n := by rw [hlen, UInt32.ofNat_toNat]
    have hlt : as.length < 2 ^ 32 := by
      rw [hlen]
      exact n.toNat_lt
    refine ⟨as, ⟨count_le_iff.mp ⟨hlt, by rw [hcount]; exact hmax⟩, hall⟩, ?_, hf⟩
    rw [min_eq_toNat hlt, hcount, append_nil]
  · intro hrun
    obtain ⟨as, ⟨hle, hall⟩, rfl, hf⟩ := hrun
    obtain ⟨hlt, hmax⟩ := count_le_iff.mpr hle
    refine ⟨UInt32.ofNat as.length, (as.map enc).flatten, ⟨trivial, ?_⟩, hmax, as, [], ⟨⟨?_, hall⟩, ?_⟩,
      rfl, hf⟩
    · rw [min_eq_toNat hlt]
    · rw [UInt32.toNat_ofNat_of_lt' hlt]
    · rw [append_nil]

theorem opRead_eq_ok {opRaw : Bytes} {f : Op → Cursor α} {r : α × Bytes} :
    (Op.read opRaw >>= f) b = .ok r ↔ ∃ op, opRaw = ascii op.asStr ∧ f op b = .ok r := by
  rw [Op.read]
  cases hop : Op.parse opRaw with
  | none =>
    refine iff_of_false (fun h => by cases h) fun h => ?_
    obtain ⟨op, heq, -⟩ := h
    rw [Op.parse_eq_some.mpr heq] at hop
    cases hop
  | some op =>
    constructor
    · intro h
      exact ⟨op, Op.parse_eq_some.mp hop, h⟩
    · intro h
      obtain ⟨op', heq, hf⟩ := h
      rw [Op.parse_eq_some.mpr heq] at hop
      rw [← Option.some.inj hop]
      exact hf

theorem seq_eq_iff (h : b.length = 8) {v : UInt64} :
    UInt64.ofNat (beValue b) = v ↔ b = beBytes 8 v.toNat := by
  have hlt : beValue b < 2 ^ 64 := beValue_lt h
  constructor
  · intro hv
    rw [← hv, UInt64.toNat_ofNat_of_lt' hlt, beBytes_beValue h]
  · intro hb
    rw [hb, beValue_beBytes v.toNat_lt, UInt64.ofNat_toNat]

def entryBytes (seq : UInt64) (time : ℤ) (op body : Bytes) (sigs : List Signature) : Bytes :=
  putLp (beBytes 8 seq.toNat) ++ putLp (beBytes 8 (toBits64 time)) ++ putLp op ++ putLp body
    ++ beBytes 4 (min sigs.length (2 ^ 32 - 1)) ++ (sigs.map Signature.encode).flatten

theorem entry_eq_ok {text : Cursor Bytes} {T : Bytes → Prop} (htext : Inverts text putLp T)
    {γ : Type} {g : Bytes → Cursor γ} {P : Bytes → γ → Prop}
    (hg : ∀ (β : Type) opRaw (f : γ → Cursor β) b r,
      (g opRaw >>= f) b = .ok r ↔ ∃ op, P opRaw op ∧ f op b = .ok r)
    {f : UInt64 → ℤ → γ → Bytes → List Signature → α} {a : α} : parse (do
      let seqRaw ← lp
      let timeRaw ← lp
      let opRaw ← text
      let body ← lp
      if seqRaw.length ≠ 8 then throw .malformed
      if timeRaw.length ≠ 8 then throw .malformed
      let op ← g opRaw
      let n ← u32
      if MAX_SIGNERS < n then throw .malformed
      let sigs ← many Signature.read n.toNat
      finish
      return f (UInt64.ofNat (beValue seqRaw)) (ofBits64 (UInt64.ofNat (beValue timeRaw))) op body sigs :
        Cursor α) b = .ok a
      ↔ ∃ seq time opRaw op body sigs, (T opRaw ∧ P opRaw op ∧ FieldsFit time body sigs)
        ∧ b = entryBytes seq time opRaw body sigs ∧ f seq time op body sigs = a := by
  rw [parse_eq_ok]
  simp only [lp_inverts.bind_eq_ok, htext.bind_eq_ok, Reader.guard_eq_ok, hg,
    many_eq_ok signature_inverts, pure_apply, not_not]
  constructor
  · intro hrun
    obtain ⟨_, seqRaw, _, ⟨-, rfl⟩, timeRaw, _, ⟨-, rfl⟩, opRaw, _, ⟨ht, rfl⟩, body, _, ⟨hbody, rfl⟩,
      hseq, htime, op, hop, sigs, ⟨hcount, hsigs⟩, rfl, hlast⟩ := hrun
    cases hlast
    have hs := (seq_eq_iff hseq).mp rfl
    have hbits : timeRaw = beBytes 8 (toBits64 (ofBits64 (UInt64.ofNat (beValue timeRaw)))) := by
      rw [toBits64_ofBits64]
      exact (seq_eq_iff htime).mp rfl
    refine ⟨_, _, opRaw, op, body, sigs, ⟨ht, hop, ofBits64_isTime _, hbody, hcount, hsigs⟩, ?_, rfl⟩
    rw [entryBytes, ← hs, ← hbits]
    simp only [append_assoc]
  · intro he
    obtain ⟨seq, time, opRaw, op, body, sigs, ⟨ht, hop, h⟩, rfl, rfl⟩ := he
    have hshort v : (beBytes 8 v).length < 2 ^ 32 := by
      rw [beBytes_length]
      decide
    refine ⟨[], beBytes 8 seq.toNat, _, ⟨hshort _, ?_⟩, beBytes 8 (toBits64 time), _,
      ⟨hshort _, rfl⟩, opRaw, _, ⟨ht, rfl⟩, body, _, ⟨h.body, rfl⟩,
      beBytes_length 8 _, beBytes_length 8 _, op, hop, sigs, ⟨h.sigs_count, h.sigs⟩, rfl, ?_⟩
    · simp only [entryBytes, append_assoc]
    · have hseq : UInt64.ofNat (beValue (beBytes 8 seq.toNat)) = seq :=
        (seq_eq_iff (beBytes_length 8 _)).mpr rfl
      have htime : UInt64.ofNat (beValue (beBytes 8 (toBits64 time))) = UInt64.ofNat (toBits64 time) := by
        rw [beValue_beBytes (toBits64_lt time)]
      rw [hseq, htime, ofBits64_toBits64 h.time]

theorem Entry.decode_eq_ok {raw : Bytes} {e : Entry} :
    Entry.decode raw = .ok e ↔ e.Fits ∧ raw = e.encode := by
  rw [Entry.decode, entry_eq_ok lpStr_inverts (g := Op.read) fun _ _ _ _ _ => opRead_eq_ok]
  constructor
  · intro he
    obtain ⟨seq, time, _, op, body, sigs, ⟨-, rfl, h⟩, rfl, rfl⟩ := he
    exact ⟨h, rfl⟩
  · intro he
    obtain ⟨h, rfl⟩ := he
    exact ⟨e.seq, e.time, _, e.op, e.body, e.sigs, ⟨Op.text_asStr e.op, rfl, h⟩, rfl, rfl⟩

theorem nested_inverts {decode : Bytes → Except Error α} {enc : α → Bytes} {ok : α → Prop}
    (h : ∀ raw a, decode raw = .ok a ↔ ok a ∧ raw = enc a) :
    Inverts (lp >>= fun raw => liftM (decode raw)) (fun a => putLp (enc a))
      fun a => ok a ∧ (enc a).length < 2 ^ 32 := by
  intro b a rest
  rw [lp_inverts.bind_eq_ok]
  have hlift (raw mid : Bytes) : (liftM (decode raw) : Cursor α) mid = .ok (a, rest)
      ↔ decode raw = .ok a ∧ mid = rest := by
    show (decode raw >>= fun a => pure (a, mid)) = _ ↔ _
    rw [Karst.bind_eq_ok]
    constructor
    · intro hrun
      obtain ⟨a, ha, hlast⟩ := hrun
      cases hlast
      exact ⟨ha, rfl⟩
    · intro hrun
      exact ⟨a, hrun.1, by rw [hrun.2]; rfl⟩
  constructor
  · intro hrun
    obtain ⟨raw, mid, ⟨hlen, hb⟩, hlifted⟩ := hrun
    obtain ⟨hdecode, hmid⟩ := (hlift raw mid).mp hlifted
    obtain ⟨hok, rfl⟩ := (h raw a).mp hdecode
    exact ⟨⟨hok, hlen⟩, by rw [← hmid]; exact hb⟩
  · intro ha
    exact ⟨enc a, rest, ⟨ha.1.2, ha.2⟩, (hlift _ _).mpr ⟨(h _ a).mpr ⟨ha.1.1, rfl⟩, rfl⟩⟩

theorem entry_inverts : Inverts Entry.read (fun e => putLp e.encode)
    fun e => e.Fits ∧ e.encode.length < 2 ^ 32 := nested_inverts fun _ _ => Entry.decode_eq_ok

def LogFits (entries : List Entry) : Prop :=
  entries.length ≤ MAX_LOG_ENTRIES.toNat ∧ ∀ e ∈ entries, e.Fits ∧ e.encode.length < 2 ^ 32

theorem decodeLog_eq_ok {entries : List Entry} :
    decodeLog b = .ok entries ↔ LogFits entries ∧ b = encodeLog entries := by
  rw [decodeLog, parse_eq_ok]
  simp only [many_eq_ok entry_inverts, pure_apply]
  constructor
  · intro hrun
    obtain ⟨_, entries', hfits, hb, hlast⟩ := hrun
    cases hlast
    exact ⟨hfits, hb⟩
  · intro hl
    exact ⟨[], entries, hl.1, hl.2, rfl⟩

/-- **Wire canonicity.**  The log decoder and every body parser read back what is built within the limits
of the format, and accept nothing else: what they accept, rebuilt, is what they were given. -/
theorem wire_canonical : Canonical decodeLog encodeLog LogFits
    ∧ Canonical parseGenesis genesisBody Genesis.Encodable
    ∧ Canonical parseAuthorityList authorityListBody AuthorityList.Encodable
    ∧ Canonical parseNodeSign nodeSignBody NodeSign.Encodable
    ∧ Canonical parseNodeRevoke nodeRevokeBody NodeRevoke.Encodable
    ∧ Canonical parseQuorumChange quorumChangeBody (fun _ => True)
    ∧ Canonical parseAnchor anchorBody (fun a => a.auditHead.length < 2 ^ 32)
    ∧ Canonical parseDisable disableBody IsText :=
  ⟨canonical_of_eq_ok fun _ _ => decodeLog_eq_ok, canonical_of_eq_ok fun _ _ => parseGenesis_eq_ok,
    canonical_of_eq_ok fun _ _ => parseAuthorityList_eq_ok,
    canonical_of_eq_ok fun _ _ => parseNodeSign_eq_ok, canonical_of_eq_ok fun _ _ => parseNodeRevoke_eq_ok,
    canonical_of_eq_ok fun _ _ => parseQuorumChange_eq_ok,
    canonical_of_eq_ok fun _ _ => parseAnchor_eq_ok, canonical_of_eq_ok fun _ _ => parseDisable_eq_ok⟩

end Karst.Bedrock
