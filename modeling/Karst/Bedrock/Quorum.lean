import Karst.Bedrock.Coverage

/-!
# Quorums

A signature names a position of the key list in force, and no position may be named twice: "without
this a single compromised authority reaches any quorum by repeating itself".  Positions are not keys.
A list that holds one key twice is accepted, in genesis and in an authority list alike, and the holder
of that key then signs at both positions.
-/

namespace Karst.Bedrock

open Option Except State
open List hiding Vector

/-! ### Who signs -/

/-- The keys an operation is signed under, by position: for an anchor the anchor keys come after the
authorities. -/
def State.keysFor (st : State) (op : Op) : List Bytes :=
  (st.signers op.tier).1 ++ if op = .anchor then st.anchorKeys else []

def State.thresholdFor (st : State) (op : Op) : ℕ :=
  if op = .anchor then 1 else (st.signers op.tier).2.toNat

def State.verifiesAt (E : Externals) (st : State) (op : Op) (i : ℕ) (key msg sig : Bytes) : Bool :=
  if i < (st.signers op.tier).1.length then
    match op.tier with
    | .root => E.verifyRoot key msg sig
    | .authority => E.verifyAuthority key msg sig
  else E.verifyAnchorKey key msg sig

/-- The state whose keys an entry is signed under: the one before it, except that genesis is signed
under its own roots. -/
def inForce (st : State) (e : Entry) : State := installRoots st ((genesisOf e).toOption.getD none)

def SignedUnder (E : Externals) (st : State) (e : Entry) (h key : Bytes) : Prop :=
  ∃ s ∈ e.sigs, (st.keysFor e.op)[s.signerIndex.toNat]? = some key
    ∧ st.verifiesAt E e.op s.signerIndex.toNat key h s.sig = true

/-- Valid signatures under as many different keys as the operation takes. -/
def Quorum (E : Externals) (st : State) (e : Entry) (h : Bytes) : Prop :=
  ∃ ks : Finset Bytes, st.thresholdFor e.op ≤ ks.card ∧ ∀ key ∈ ks, SignedUnder E st e h key

def signingKeys (keys : List Bytes) (e : Entry) : List Bytes :=
  (e.sigs.map Signature.signerIndex).filterMap fun i => keys[i.toNat]?

/-! ### The signature loop -/

section

variable {E : Externals} {h : Bytes} {tier : Tier} {keys : List Bytes} {anchorKeys : Option (List Bytes)}

theorem checkSignatures_eq_ok {seen : List UInt32} {sigs : List Signature} :
    checkSignatures E h tier keys anchorKeys seen sigs = .ok () ↔
      (sigs.map Signature.signerIndex).Nodup ∧ (∀ s ∈ sigs, s.signerIndex ∉ seen)
      ∧ ∀ s ∈ sigs, checkSignature E h tier keys anchorKeys s = .ok true := by
  induction sigs generalizing seen with
  | nil => simp [checkSignatures]
  | cons s sigs ih =>
    rw [checkSignatures, guard_eq_ok, bind_eq_ok]
    simp only [guard_eq_ok, ih, Bool.not_eq_false, mem_cons, not_or, map_cons,
      List.nodup_cons, forall_eq_or_imp, List.mem_map, not_exists, not_and]
    constructor
    · intro hrun
      obtain ⟨hfresh, ok, hok, rfl, hnodup, hseen, hall⟩ := hrun
      exact ⟨⟨fun s' hs' heq => (hseen s' hs').1 heq, hnodup⟩,
        ⟨hfresh, fun s' hs' => (hseen s' hs').2⟩, hok, hall⟩
    · intro hrun
      obtain ⟨⟨hother, hnodup⟩, ⟨hfresh, hseen⟩, hok, hall⟩ := hrun
      exact ⟨hfresh, true, hok, rfl, hnodup, fun s' hs' => ⟨hother s' hs', hseen s' hs'⟩, hall⟩

theorem verifySignatures_eq_ok {e : Entry} {threshold : UInt32} :
    verifySignatures E e h tier keys anchorKeys threshold = .ok () ↔
      threshold ≠ 0 ∧ threshold.toNat ≤ e.sigs.length ∧ (e.sigs.map Signature.signerIndex).Nodup
      ∧ ∀ s ∈ e.sigs, checkSignature E h tier keys anchorKeys s = .ok true := by
  have hlt := threshold.toNat_lt
  have henough : ¬ min e.sigs.length (2 ^ 32 - 1) < threshold.toNat
      ↔ threshold.toNat ≤ e.sigs.length := by omega
  rw [verifySignatures, guard_eq_ok, guard_eq_ok, henough, checkSignatures_eq_ok]
  simp

end

section

variable {E : Externals} {st : State} {e : Entry} {h : Bytes}

theorem checkSignature_eq_ok (E : Externals) (st : State) (e : Entry) (h : Bytes) (s : Signature) :
    checkSignature E h e.op.tier (st.signers e.op.tier).1
        (if e.op = .anchor then some st.anchorKeys else none) s = .ok true ↔
      ∃ key, (st.keysFor e.op)[s.signerIndex.toNat]? = some key
        ∧ st.verifiesAt E e.op s.signerIndex.toNat key h s.sig = true := by
  set keys := (st.signers e.op.tier).1 with hkeys
  set i := s.signerIndex.toNat with hi
  have hat : st.keysFor e.op = keys ++ if e.op = .anchor then st.anchorKeys else [] := rfl
  by_cases hlt : i < keys.length
  · have hkey : keys[i]? = some keys[i] := getElem?_eq_getElem hlt
    rw [checkSignature, ← hi, hkey, hat, getElem?_append_left hlt, hkey]
    simp only [some.injEq, exists_eq_left', ok.injEq]
    cases htier : e.op.tier <;> rw [verifiesAt, if_pos hlt, htier]
  · have hout : keys[i]? = none := getElem?_eq_none (Nat.not_lt.mp hlt)
    rw [checkSignature, ← hi, hout, hat, getElem?_append_right (Nat.not_lt.mp hlt)]
    simp only [verifiesAt, ← hkeys, if_neg hlt]
    by_cases hop : e.op = .anchor
    · rw [if_pos hop, if_pos hop, bind_some, if_pos (Nat.not_lt.mp hlt)]
      cases st.anchorKeys[i - keys.length]? with
      | none => simp
      | some key => simp
    · rw [if_neg hop, if_neg hop]
      simp

/-- **The signatures of an accepted entry**: enough of them, at different positions of the list, each
valid at its own. -/
theorem verifySigners_eq_ok : verifySigners E st e h = .ok () ↔
    st.thresholdFor e.op ≠ 0 ∧ st.thresholdFor e.op ≤ e.sigs.length ∧ (e.sigs.map Signature.signerIndex).Nodup
    ∧ ∀ s ∈ e.sigs, ∃ key, (st.keysFor e.op)[s.signerIndex.toNat]? = some key
      ∧ st.verifiesAt E e.op s.signerIndex.toNat key h s.sig = true := by
  have hcheck := checkSignature_eq_ok E st e h
  show (if e.op = .anchor then verifySignatures E e h e.op.tier (st.signers e.op.tier).1
      (some st.anchorKeys) 1
    else verifySignatures E e h e.op.tier (st.signers e.op.tier).1 none (st.signers e.op.tier).2) = _ ↔ _
  by_cases hop : e.op = .anchor
  · simp only [if_pos hop] at hcheck
    rw [if_pos hop, verifySignatures_eq_ok, thresholdFor, if_pos hop]
    simp only [hcheck]
    simp
  · simp only [if_neg hop] at hcheck
    rw [if_neg hop, verifySignatures_eq_ok, thresholdFor, if_neg hop]
    simp only [hcheck, ne_eq, ← UInt32.toNat_inj, UInt32.toNat_zero]

theorem mem_signingKeys {key : Bytes} : key ∈ signingKeys (st.keysFor e.op) e ↔
      ∃ s ∈ e.sigs, (st.keysFor e.op)[s.signerIndex.toNat]? = some key := by
  simp [signingKeys]

variable (hv : verifySigners E st e h = .ok ())
include hv

/-- **How many keys.**  The signatures of an accepted entry are a quorum of different keys exactly if
there are enough different keys at the positions they are made at. -/
theorem quorum_iff :
    Quorum E st e h ↔ st.thresholdFor e.op ≤ (signingKeys (st.keysFor e.op) e).toFinset.card := by
  obtain ⟨-, -, -, hvalid⟩ := verifySigners_eq_ok.mp hv
  constructor
  · intro hquorum
    obtain ⟨ks, hcard, hks⟩ := hquorum
    refine hcard.trans (Finset.card_le_card fun key hkey => ?_)
    obtain ⟨s, hs, hat, -⟩ := hks key hkey
    exact mem_toFinset.mpr (mem_signingKeys.mpr ⟨s, hs, hat⟩)
  · intro hcard
    refine ⟨_, hcard, fun key hkey => ?_⟩
    obtain ⟨s, hs, hat⟩ := mem_signingKeys.mp (mem_toFinset.mp hkey)
    obtain ⟨key', hat', hverifies⟩ := hvalid s hs
    obtain rfl : key' = key := some.inj (hat'.symm.trans hat)
    exact ⟨s, hs, hat, hverifies⟩

theorem signingKeys_length : (signingKeys (st.keysFor e.op) e).length = e.sigs.length := by
  obtain ⟨-, -, -, hvalid⟩ := verifySigners_eq_ok.mp hv
  have hsome : ∀ i ∈ e.sigs.map Signature.signerIndex, ((st.keysFor e.op)[i.toNat]?).isSome := by
    intro i hi
    obtain ⟨s, hs, rfl⟩ := mem_map.mp hi
    obtain ⟨key, hat, -⟩ := hvalid s hs
    rw [hat]
    rfl
  rw [signingKeys, filterMap_length_eq_length.mpr hsome, length_map]

theorem signingKeys_nodup (hkeys : (st.keysFor e.op).Nodup) : (signingKeys (st.keysFor e.op) e).Nodup := by
  obtain ⟨-, -, hindices, -⟩ := verifySigners_eq_ok.mp hv
  refine Nodup.filterMap ?_ hindices
  intro i j key hi hj
  have hlt : i.toNat < (st.keysFor e.op).length := (List.getElem?_eq_some_iff.mp hi).1
  exact UInt32.toNat_inj.mp ((getElem?_inj hlt hkeys).mp (Eq.trans hi (Eq.symm hj)))

theorem quorum_of_nodup (hkeys : st.thresholdFor e.op ≤ 1 ∨ (st.keysFor e.op).Nodup) : Quorum E st e h := by
  obtain ⟨hpos, henough, -, -⟩ := verifySigners_eq_ok.mp hv
  have hlength := signingKeys_length hv
  rw [quorum_iff hv]
  rcases hkeys with hone | hnodup
  · have hne : signingKeys (st.keysFor e.op) e ≠ [] := by
      intro hnil
      rw [hnil, length_nil] at hlength
      omega
    exact hone.trans (Finset.card_pos.mpr (toFinset_nonempty_iff _ |>.mpr hne))
  · rw [toFinset_card_of_nodup (signingKeys_nodup hv hnodup), hlength]
    exact henough

end

/-! ### Whole logs -/

section

variable {E : Externals} {st st' : State} {e : Entry} {prev : Bytes} {expectSeq : UInt64}

theorem verifyEntry_signed {r : State × Bytes} (hv : verifyEntry E expectSeq st prev e = .ok r) :
    verifySigners E (inForce st e) e (chainHash E prev e.seq e.time e.op e.body) = .ok () := by
  obtain ⟨-, genesis, st₁, hgenesis, hsigned, -⟩ := verifyEntry_eq_ok.mp hv
  rw [inForce, hgenesis]
  exact hsigned

theorem accepted_at {entries p s : List Entry} (hv : verifyLog E entries = .ok st)
    (hsplit : entries = p ++ e :: s) : ∃ st₀, stateAfter E p = .ok st₀
      ∧ ∃ st₁, verifyEntry E (expectedSeq p.length) st₀ st₀.head e = .ok (st₁, st₁.head) := by
  have hp : p ++ [e] <+: entries := ⟨s, by rw [hsplit, append_assoc, singleton_append]⟩
  obtain ⟨st₁, hv₁⟩ := stateAfter_of_isPrefix hp (verifyLog_eq_ok.mp hv).2
  obtain ⟨st₀, hv₀, he⟩ := stateAfter_concat.mp hv₁
  exact ⟨st₀, hv₀, st₁, he⟩

end

/-- At every position, a quorum of different keys of the list in force signs the chain hash. -/
def QuorumThroughout (E : Externals) (entries : List Entry) : Prop :=
  ∀ p e s st, entries = p ++ e :: s → stateAfter E p = .ok st →
    Quorum E (inForce st e) e (chainHash E st.head e.seq e.time e.op e.body)

/-- At every position, the list in force holds no key twice, or one signature is enough. -/
def DistinctKeys (E : Externals) (entries : List Entry) : Prop :=
  ∀ p e s st, entries = p ++ e :: s → stateAfter E p = .ok st →
    (inForce st e).thresholdFor e.op ≤ 1 ∨ ((inForce st e).keysFor e.op).Nodup

/-- **Quorums of different keys**, if no list in force where more than one signature counts holds a
key twice. -/
theorem quorum_of_distinctKeys {E : Externals} {entries : List Entry} {st : State}
    (hv : verifyLog E entries = .ok st) : (∀ p e s, entries = p ++ e :: s → ∃ st₀, stateAfter E p = .ok st₀)
    ∧ (DistinctKeys E entries → QuorumThroughout E entries)
    ∧ (QuorumThroughout E entries ↔ ∀ p e s st, entries = p ++ e :: s → stateAfter E p = .ok st →
        (inForce st e).thresholdFor e.op ≤ (signingKeys ((inForce st e).keysFor e.op) e).toFinset.card) := by
  have hsigned : ∀ p e s st₀, entries = p ++ e :: s → stateAfter E p = .ok st₀ →
      verifySigners E (inForce st₀ e) e (chainHash E st₀.head e.seq e.time e.op e.body) = .ok () := by
    intro p e s st₀ hsplit hp
    obtain ⟨st₀', hp', st₁, he⟩ := accepted_at hv hsplit
    obtain rfl : st₀' = st₀ := ok.inj (hp'.symm.trans hp)
    exact verifyEntry_signed he
  refine ⟨?_, ?_, ?_⟩
  · intro p e s hsplit
    obtain ⟨st₀, hp, -⟩ := accepted_at hv hsplit
    exact ⟨st₀, hp⟩
  · intro hkeys p e s st₀ hsplit hp
    exact quorum_of_nodup (hsigned p e s st₀ hsplit hp) (hkeys p e s st₀ hsplit hp)
  · constructor
    · intro hquorum p e s st₀ hsplit hp
      exact (quorum_iff (hsigned p e s st₀ hsplit hp)).mp (hquorum p e s st₀ hsplit hp)
    · intro hcount p e s st₀ hsplit hp
      exact (quorum_iff (hsigned p e s st₀ hsplit hp)).mpr (hcount p e s st₀ hsplit hp)

theorem quorum_of_distinctKeys_toyLog : ∃ st, verifyLog toy (toyLog 3) = .ok st
    ∧ DistinctKeys toy (toyLog 3) ∧ QuorumThroughout toy (toyLog 3) := by
  obtain ⟨st, hv, -⟩ := toyLog_verified 3
  have hkeys : DistinctKeys toy (toyLog 3) := by
    intro p e s st₀ hsplit hp
    refine .inl (Nat.le_of_eq ?_)
    rcases p with _ | ⟨a, _ | ⟨b, p⟩⟩
    · obtain ⟨rfl, -⟩ := cons.inj hsplit
      rw [inForce, toyGenesis_read]
      rfl
    · obtain ⟨rfl, htail⟩ := cons.inj hsplit
      obtain ⟨rfl, -⟩ := cons.inj htail
      have hfirst : stateAfter toy [toyGenesis] = .ok toyState := by
        show (verifyEntry toy 1 default [] toyGenesis >>= _) = _
        rw [toyGenesis_verified]
        rfl
      obtain rfl : toyState = st₀ := ok.inj (hfirst.symm.trans hp)
      rfl
    · have hlen := congrArg length hsplit
      simp [toyLog] at hlen
  exact ⟨st, hv, hkeys, (quorum_of_distinctKeys hv).2.1 hkeys⟩

/-! ### One key at two positions -/

/-- Two of two roots, and they are the same key. -/
def twiceBody : Genesis := ⟨[], [toyKey 1, toyKey 1], 2, [toyKey 2], 1, []⟩

def twiceSig : Bytes := (toyKey 1).take 1 ++ chainHash toy [] 1 0 .genesis (genesisBody twiceBody)

def twiceEntry : Entry := ⟨1, 0, .genesis, genesisBody twiceBody, [⟨0, twiceSig⟩, ⟨1, twiceSig⟩]⟩

theorem twiceBody_encodable : twiceBody.Encodable where
  zone := ⟨by decide, rfl⟩
  roots := ⟨by decide, by simp [twiceBody, toyKey_length, ROOT_PUBLIC_KEY]⟩
  authorities := ⟨by decide, by simp [twiceBody, toyKey_length, AUTHORITY_PUBLIC_KEY]⟩
  anchorKeys := ⟨by decide, by simp [twiceBody]⟩

theorem twiceEntry_read : genesisOf twiceEntry = .ok (some twiceBody) := by
  have hparse : parseGenesis twiceEntry.body = .ok twiceBody :=
    parseGenesis_eq_ok.mpr ⟨twiceBody_encodable, rfl⟩
  show (readGenesis twiceEntry).map some = _
  rw [readGenesis, hparse]
  rfl

theorem twiceEntry_signed : verifySigners toy (installRoots default (some twiceBody)) twiceEntry
      (chainHash toy [] 1 0 .genesis (genesisBody twiceBody)) = .ok () := by
  refine verifySigners_eq_ok.mpr ⟨by decide, by decide, by decide, ?_⟩
  intro s hs
  have hsig : s.sig = twiceSig := by
    rcases mem_cons.mp hs with rfl | hs
    · rfl
    · rw [mem_singleton.mp hs]
  refine ⟨toyKey 1, ?_, ?_⟩
  · rcases mem_cons.mp hs with rfl | hs
    · rfl
    · rw [mem_singleton.mp hs]
      rfl
  · have hlt : s.signerIndex.toNat < 2 := by
      rcases mem_cons.mp hs with rfl | hs
      · decide
      · rw [mem_singleton.mp hs]
        decide
    rw [hsig]
    show (if s.signerIndex.toNat < 2 then twiceSig == twiceSig else _) = true
    rw [if_pos hlt, beq_self_eq_true]

/-- **One holder, two signatures.**  A genesis that takes two of its roots is accepted with both
signatures from the one key that is listed twice. -/
theorem repeated_key_reaches_quorum : (∃ st, verifyLog toy [twiceEntry] = .ok st)
    ∧ (inForce State.default twiceEntry).thresholdFor .genesis = 2
    ∧ (∀ key, key ∈ (inForce State.default twiceEntry).keysFor .genesis → key = toyKey 1)
    ∧ ¬ QuorumThroughout toy [twiceEntry] := by
  have hforce : inForce default twiceEntry = installRoots default (some twiceBody) := by
    rw [inForce, twiceEntry_read]
    rfl
  have hsame key (hkey : key ∈ (inForce default twiceEntry).keysFor .genesis) : key = toyKey 1 := by
    rw [hforce] at hkey
    have hmem : key ∈ [toyKey 1, toyKey 1] := hkey
    simpa using hmem
  refine ⟨?_, ?_, hsame, ?_⟩
  · obtain ⟨r, hr⟩ : ∃ r, verifyEntry toy 1 default [] twiceEntry = .ok r :=
      ⟨_, verifyEntry_eq_ok.mpr ⟨rfl, some twiceBody, _, twiceEntry_read, twiceEntry_signed, rfl, rfl⟩⟩
    refine ⟨r.1, ?_⟩
    show (verifyEntry toy 1 default [] twiceEntry >>= fun r => .ok r.1) = _
    rw [hr]
    rfl
  · rw [hforce]
    rfl
  · intro hquorum
    obtain ⟨ks, hcard, hks⟩ := hquorum [] twiceEntry [] default rfl rfl
    have hone : ks ⊆ {toyKey 1} := by
      intro key hkey
      obtain ⟨s, -, hat, -⟩ := hks key hkey
      exact Finset.mem_singleton.mpr (hsame key (mem_of_getElem? hat))
    have htwo : (inForce default twiceEntry).thresholdFor twiceEntry.op = 2 := by
      rw [hforce]
      rfl
    have hle := Finset.card_le_card hone
    rw [Finset.card_singleton] at hle
    omega

end Karst.Bedrock
