import Karst.Bedrock.GoDecoding
import Karst.Bedrock.Commitment

/-!
# Two implementations of one log

The node and the server decode and verify alike, up to two rules that only one of them has:
the node refuses a text that is not UTF-8, the server a `node-sign` whose handle is not that of its
identity key.
-/

namespace Karst.Bedrock.Go

open SameOk
open List hiding Vector

/-! ### The two rules -/

def textsOf (body : Bytes) : Op → List Bytes
  | .genesis => (parseGenesis body).toOption.toList.map Genesis.zone
  | .nodeSign => (parseNodeSign body).toOption.toList.map NodeSign.handle
  | .nodeRevoke => (parseNodeRevoke body).toOption.toList.flatMap fun r => [r.handle, r.reason]
  | .disable => (parseDisable body).toOption.toList
  | .authorityList | .quorumChange | .anchor => []

def Entry.texts (e : Entry) : List Bytes := (Op.parse e.op).elim [] (textsOf e.body)

def Entry.Utf8 (e : Entry) : Prop := ∀ t ∈ e.texts, validUtf8 t = true

def Entry.SelfNamed (E : Bedrock.Externals) (e : Entry) : Prop :=
  e.op = OpNodeSign → ∀ n, parseNodeSign e.body = .ok n → nodeHandle E n.identityKey = n.handle

section

variable {b : Bytes}

theorem parseGenesis_iff {g : Genesis} :
    Bedrock.parseGenesis b = .ok g ↔ parseGenesis b = .ok g ∧ validUtf8 g.zone = true := by
  rw [Bedrock.parseGenesis_eq_ok, parseGenesis_eq_ok]
  constructor
  · intro hg
    obtain ⟨h, hb⟩ := hg
    exact ⟨⟨{ h with zone := h.zone.1 }, hb⟩, h.zone.2⟩
  · intro hg
    obtain ⟨⟨h, hb⟩, hu⟩ := hg
    exact ⟨{ h with zone := ⟨h.zone, hu⟩ }, hb⟩

theorem parseNodeSign_iff {n : NodeSign} :
    Bedrock.parseNodeSign b = .ok n ↔ parseNodeSign b = .ok n ∧ validUtf8 n.handle = true := by
  rw [Bedrock.parseNodeSign_eq_ok, parseNodeSign_eq_ok]
  constructor
  · intro hn
    obtain ⟨h, hb⟩ := hn
    exact ⟨⟨{ h with handle := h.handle.1 }, hb⟩, h.handle.2⟩
  · intro hn
    obtain ⟨⟨h, hb⟩, hu⟩ := hn
    exact ⟨{ h with handle := ⟨h.handle, hu⟩ }, hb⟩

theorem parseNodeRevoke_iff {n : NodeRevoke} : Bedrock.parseNodeRevoke b = .ok n ↔
      parseNodeRevoke b = .ok n ∧ validUtf8 n.handle = true ∧ validUtf8 n.reason = true := by
  rw [Bedrock.parseNodeRevoke_eq_ok, parseNodeRevoke_eq_ok]
  constructor
  · intro hn
    obtain ⟨h, hb⟩ := hn
    exact ⟨⟨{ h with handle := h.handle.1, reason := h.reason.1 }, hb⟩, h.handle.2, h.reason.2⟩
  · intro hn
    obtain ⟨⟨h, hb⟩, hu, hv⟩ := hn
    exact ⟨{ h with handle := ⟨h.handle, hu⟩, reason := ⟨h.reason, hv⟩ }, hb⟩

theorem parseDisable_iff {reason : Bytes} :
    Bedrock.parseDisable b = .ok reason ↔ parseDisable b = .ok reason ∧ validUtf8 reason = true := by
  rw [Bedrock.parseDisable_eq_ok, parseDisable_eq_ok, IsText, and_assoc, and_assoc,
    and_comm (b := b = disableBody reason)]

theorem parseAuthorityList_sameOk : SameOk (Bedrock.parseAuthorityList b) (parseAuthorityList b) := by
  intro a
  rw [Bedrock.parseAuthorityList_eq_ok, parseAuthorityList_eq_ok]

theorem parseQuorumChange_sameOk : SameOk (Bedrock.parseQuorumChange b) (parseQuorumChange b) := by
  intro q
  rw [Bedrock.parseQuorumChange_eq_ok, parseQuorumChange_eq_ok, true_and]

theorem parseAnchor_sameOk : SameOk (Bedrock.parseAnchor b) (parseAnchor b) := by
  intro a
  rw [Bedrock.parseAnchor_eq_ok, parseAnchor_eq_ok]

end

section

variable {e : Bedrock.Entry}

theorem Entry.of_op_eq (op : Op) : (Entry.of e).op = ascii op.asStr ↔ e.op = op := by
  constructor
  · exact Op.asStr_injective
  · intro hop
    rw [← hop]
    rfl

theorem Entry.of_texts : (Entry.of e).texts = textsOf e.body e.op := by
  have hparse : Op.parse (Entry.of e).op = some e.op := Op.parse_eq_some.mpr rfl
  rw [Entry.texts, hparse]
  rfl

theorem tierOf_asStr (op : Op) : tierOf (ascii op.asStr) = some op.tier := by
  cases op <;> decide

theorem exists_op_of_tierOf {b : Bytes} {tier : Tier} (h : tierOf b = some tier) :
    ∃ op : Op, b = ascii op.asStr := by
  unfold tierOf at h
  split at h
  · rename_i hb
    rcases hb with rfl | rfl | rfl
    · exact ⟨.genesis, rfl⟩
    · exact ⟨.authorityList, rfl⟩
    · exact ⟨.disable, rfl⟩
  · split at h
    · rename_i hb
      rcases hb with rfl | rfl | rfl | rfl
      · exact ⟨.nodeSign, rfl⟩
      · exact ⟨.nodeRevoke, rfl⟩
      · exact ⟨.quorumChange, rfl⟩
      · exact ⟨.anchor, rfl⟩
    · cases h

end

/-! ### One entry -/

section

variable {E : Externals} {h : Bytes} {tier : Tier} {keys : List Bytes}

theorem checkSignature_eq (anchorKeys : Option (List Bytes)) (s : Signature) :
    checkSignature E h tier keys (anchorKeys.getD []) s
      = Bedrock.checkSignature E.toExternals h tier keys anchorKeys s := by
  rw [checkSignature, Bedrock.checkSignature]
  cases hkey : keys[s.signerIndex.toNat]? with
  | some key => cases tier <;> rfl
  | none =>
    have hpast : keys.length ≤ s.signerIndex.toNat := getElem?_eq_none_iff.mp hkey
    cases anchorKeys with
    | none => rfl
    | some ks =>
      rw [Option.bind_some, if_pos hpast]
      rfl

theorem checkSignatures_eq (anchorKeys : Option (List Bytes)) (seen : List UInt32)
    (sigs : List Signature) : checkSignatures E h tier keys (anchorKeys.getD []) seen sigs
      = Bedrock.checkSignatures E.toExternals h tier keys anchorKeys seen sigs := by
  induction sigs generalizing seen with
  | nil => rfl
  | cons s sigs ih => simp only [checkSignatures, Bedrock.checkSignatures, checkSignature_eq, ih]

theorem verifySignatures_eq {e : Bedrock.Entry} (he : e.sigs.length < 2 ^ 32)
    (anchorKeys : Option (List Bytes)) (threshold : UInt32) :
    verifySignatures E (Entry.of e) h tier keys (anchorKeys.getD []) threshold
      = Bedrock.verifySignatures E.toExternals e h tier keys anchorKeys threshold := by
  have hcount : UInt32.ofNat e.sigs.length < threshold
      ↔ min e.sigs.length (2 ^ 32 - 1) < threshold.toNat := by
    rw [UInt32.lt_iff_toNat_lt, min_eq_toNat he]
  rw [verifySignatures, Bedrock.verifySignatures, checkSignatures_eq]
  show (if threshold = 0 then _ else if UInt32.ofNat e.sigs.length < threshold then _ else _) = _
  rw [if_congr hcount rfl rfl]
  rfl

end

theorem writeLP_eq {b : Bytes} (h : b.length < 2 ^ 32) : writeLP b = putLp b := by
  rw [writeLP, putLp, min_eq_toNat h]

section

variable {E : Externals} {e : Bedrock.Entry} {st : State} {prev : Bytes}

theorem chainHash_eq (hprev : prev.length < 2 ^ 32) (hbody : e.body.length < 2 ^ 32) :
    chainHash E prev e.seq e.time (Entry.of e).op e.body
      = Bedrock.chainHash E.toExternals prev e.seq e.time e.op e.body := by
  have hshort v : (beBytes 8 v).length < 2 ^ 32 := by
    rw [beBytes_length]
    decide
  have hop : (Entry.of e).op.length < 2 ^ 32 := (Op.text_asStr e.op).1
  rw [chainHash, writeLP_eq hprev, writeLP_eq (hshort _), writeLP_eq (hshort _), writeLP_eq hop,
    writeLP_eq hbody]
  rfl

theorem validateGenesis_sameOk (g : Genesis) : SameOk (do
      if g.roots.isEmpty then .error "genesis with no roots" else
      if g.k = 0 ∨ g.roots.length < g.k.toNat then
        .error s!"root threshold {g.k} is unreachable with {g.roots.length} roots" else
      checkAuthorities "genesis" g.authorities g.q
      Bedrock.validateAnchorKeys g.anchorKeys g.roots g.authorities : Except String Unit)
      (validateGenesis g) := by
  have hempty (l : List Bytes) : l.isEmpty = true ↔ l.length = 0 := by
    rw [List.isEmpty_iff, List.length_eq_zero_iff]
  refine guard (hempty _) fun _ => guard Iff.rfl fun _ => ?_
  intro r
  rw [bind_eq_ok, checkAuthorities]
  simp only [guard_eq_ok, hempty]
  constructor
  · intro hrun
    obtain ⟨⟨⟩, ⟨ha, hq, -⟩, hk⟩ := hrun
    exact ⟨ha, hq, hk⟩
  · intro hrun
    obtain ⟨ha, hq, hk⟩ := hrun
    exact ⟨(), ⟨ha, hq, trivial⟩, hk⟩

theorem genesisOf_sameOk (hutf8 : (Entry.of e).Utf8) :
    SameOk (Bedrock.genesisOf e) (genesisOf (Entry.of e)) := by
  by_cases hop : e.op = .genesis
  · have hzone g (hg : parseGenesis e.body = .ok g) : validUtf8 g.zone = true := by
      refine hutf8 g.zone ?_
      rw [Entry.of_texts, hop, textsOf, hg]
      exact mem_singleton_self g.zone
    have hop' : (Entry.of e).op = OpGenesis := (Entry.of_op_eq .genesis).mpr hop
    have hparse : SameOk (Bedrock.parseGenesis e.body) (parseGenesis e.body) :=
      of_and (fun _ => parseGenesis_iff) hzone
    rw [Bedrock.genesisOf, genesisOf, if_pos hop, if_pos hop']
    show SameOk (some <$> readGenesis e) _
    simp only [readGenesis, map_bind, map_pure]
    refine bind (sameOk_mapError_right.mpr hparse) fun g _ => ?_
    refine bind ?_ fun _ _ => sameOk_ok _
    rw [sameOk_mapError_left, sameOk_mapError_right]
    exact validateGenesis_sameOk g
  · have hop' : (Entry.of e).op ≠ OpGenesis := fun h => hop ((Entry.of_op_eq .genesis).mp h)
    rw [Bedrock.genesisOf, genesisOf, if_neg hop, if_neg hop']
    exact sameOk_ok none

theorem checkAuthorities_bind_sameOk (what text : String) (authorities : List Bytes) (q : UInt32)
    {x y : Except String State} (h : SameOk x y) :
    SameOk (checkAuthorities what authorities q >>= fun _ => x) (if authorities.length = 0 then .error text
        else if q = 0 ∨ authorities.length < q.toNat then
          .error s!"quorum {q} is unreachable with {authorities.length} authorities"
        else y) := by
  intro r
  rw [bind_eq_ok, checkAuthorities]
  simp only [guard_eq_ok, List.isEmpty_iff, List.length_eq_zero_iff]
  constructor
  · intro hrun
    obtain ⟨⟨⟩, ⟨ha, hq, -⟩, hx⟩ := hrun
    exact ⟨ha, hq, (h r).mp hx⟩
  · intro hrun
    obtain ⟨ha, hq, hy⟩ := hrun
    exact ⟨(), ⟨ha, hq, trivial⟩, (h r).mpr hy⟩

/-- **Bodies.**  What the node and the server make of an entry that keeps both rules. -/
theorem apply_sameOk (hutf8 : (Entry.of e).Utf8) (hself : (Entry.of e).SelfNamed E.toExternals)
    (genesis : Option Genesis) :
    SameOk (Bedrock.apply E.toExternals st e genesis) (apply E st (Entry.of e) genesis) := by
  have hgenesis : (Entry.of e).op = OpGenesis ↔ e.op = .genesis := Entry.of_op_eq .genesis
  have hauthorities : (Entry.of e).op = OpAuthorityList ↔ e.op = .authorityList := Entry.of_op_eq .authorityList
  have hsign : (Entry.of e).op = OpNodeSign ↔ e.op = .nodeSign := Entry.of_op_eq .nodeSign
  have hrevoke : (Entry.of e).op = OpNodeRevoke ↔ e.op = .nodeRevoke := Entry.of_op_eq .nodeRevoke
  have hquorum : (Entry.of e).op = OpQuorumChange ↔ e.op = .quorumChange := Entry.of_op_eq .quorumChange
  have hanchor : (Entry.of e).op = OpAnchor ↔ e.op = .anchor := Entry.of_op_eq .anchor
  have hdisable : (Entry.of e).op = OpDisable ↔ e.op = .disable := Entry.of_op_eq .disable
  rw [Entry.Utf8, Entry.of_texts] at hutf8
  rw [Entry.SelfNamed, hsign] at hself
  simp only [apply, hgenesis, hauthorities, hsign, hrevoke, hquorum, hanchor, hdisable, Bedrock.apply]
  cases hop : e.op with
  | genesis =>
    cases genesis with
    | none => exact fun _ => iff_of_false (fun h => by cases h) fun h => by cases h
    | some g => exact refl _
  | authorityList =>
    refine bind (sameOk_mapError_left.mpr parseAuthorityList_sameOk) fun a _ => ?_
    exact checkAuthorities_bind_sameOk _ _ _ _ (refl _)
  | nodeSign =>
    have hhandle n (hn : parseNodeSign e.body = .ok n) : validUtf8 n.handle = true := by
      refine hutf8 n.handle ?_
      rw [hop, textsOf, hn]
      exact mem_singleton_self n.handle
    refine bind (sameOk_mapError_left.mpr (of_and (fun _ => parseNodeSign_iff) hhandle))
      fun n hn => guard Iff.rfl fun _ => ?_
    rw [if_neg (not_not.mpr (hself hop n hn))]
    exact refl _
  | nodeRevoke =>
    have htexts r (hr : parseNodeRevoke e.body = .ok r) :
        validUtf8 r.handle = true ∧ validUtf8 r.reason = true := by
      rw [hop, textsOf, hr] at hutf8
      exact ⟨hutf8 r.handle mem_cons_self, hutf8 r.reason (mem_cons_of_mem _ (mem_singleton_self _))⟩
    exact bind (sameOk_mapError_left.mpr (of_and (fun _ => parseNodeRevoke_iff) htexts)) fun r _ => refl _
  | quorumChange =>
    exact bind (sameOk_mapError_left.mpr parseQuorumChange_sameOk) fun q _ => refl _
  | anchor =>
    exact bind (sameOk_mapError_left.mpr parseAnchor_sameOk) fun a _ => refl _
  | disable =>
    have hreason r (hr : parseDisable e.body = .ok r) : validUtf8 r = true := by
      refine hutf8 r ?_
      rw [hop, textsOf, hr]
      exact mem_singleton_self r
    exact bind (sameOk_mapError_left.mpr (of_and (fun _ => parseDisable_iff) hreason)) fun r _ => refl _

variable {expectSeq : UInt64} {r : State × Bytes}

theorem verifyEntry_eq_ok : verifyEntry E expectSeq st prev (Entry.of e) = .ok r ↔
      (e.seq = expectSeq ∧ st.lastTime ≤ e.time ∧ (e.seq = 1 ↔ e.op = .genesis))
      ∧ ∃ genesis st', genesisOf (Entry.of e) = .ok genesis
      ∧ verifySignatures E (Entry.of e) (chainHash E prev e.seq e.time (Entry.of e).op e.body) e.op.tier
          ((installRoots st genesis).signers e.op.tier).1
          ((if e.op = .anchor then some (installRoots st genesis).anchorKeys else none).getD [])
          (if e.op = .anchor then 1 else ((installRoots st genesis).signers e.op.tier).2) = .ok ()
      ∧ apply E (installRoots st genesis) (Entry.of e) genesis = .ok st'
      ∧ r = ({ st' with lastTime := e.time
                        head := chainHash E prev e.seq e.time (Entry.of e).op e.body
                        headSeq := e.seq }, chainHash E prev e.seq e.time (Entry.of e).op e.body) := by
  have hgenesis : (Entry.of e).op = OpGenesis ↔ e.op = .genesis := Entry.of_op_eq .genesis
  have hanchor : (Entry.of e).op = OpAnchor ↔ e.op = .anchor := Entry.of_op_eq .anchor
  have htier : tierOf (Entry.of e).op = some e.op.tier := tierOf_asStr e.op
  have hsigs : ∀ (st : State) (h : Bytes) (keys : List Bytes) (threshold : UInt32),
      (if (Entry.of e).op = OpAnchor then verifySignatures E (Entry.of e) h e.op.tier keys st.anchorKeys 1
        else verifySignatures E (Entry.of e) h e.op.tier keys [] threshold)
      = verifySignatures E (Entry.of e) h e.op.tier keys
          ((if e.op = .anchor then some st.anchorKeys else none).getD [])
          (if e.op = .anchor then 1 else threshold) := by
    intro st h keys threshold
    by_cases hop : e.op = .anchor
    · rw [if_pos (hanchor.mpr hop), if_pos hop, if_pos hop, Option.getD_some]
    · rw [if_neg (fun h => hop (hanchor.mp h)), if_neg hop, if_neg hop, Option.getD_none]
  rw [verifyEntry, guard_eq_ok, guard_eq_ok, htier, okOr_some, ok_bind, guard_eq_ok, not_not, not_lt,
    not_not, decide_eq_decide, hgenesis, and_assoc, and_assoc]
  refine and_congr_right fun _ => and_congr_right fun _ => and_congr_right fun _ => ?_
  rw [bind_eq_ok]
  refine exists_congr fun genesis => ?_
  simp only [bind_eq_ok, mapError_eq_ok, hsigs]
  constructor
  · intro hrun
    obtain ⟨hg, ⟨⟩, hsigned, st', happly, hr⟩ := hrun
    exact ⟨st', hg, hsigned, happly, (Except.ok.inj hr).symm⟩
  · intro hrun
    obtain ⟨st', hg, hsigned, happly, hr⟩ := hrun
    exact ⟨hg, (), hsigned, st', happly, by rw [hr]; rfl⟩

theorem verifyEntry_sameOk (hprev : prev.length < 2 ^ 32) (hfits : e.Fits)
    (hutf8 : (Entry.of e).Utf8) (hself : (Entry.of e).SelfNamed E.toExternals) :
    SameOk (Bedrock.verifyEntry E.toExternals expectSeq st prev e)
      (verifyEntry E expectSeq st prev (Entry.of e)) := by
  have hcount : e.sigs.length < 2 ^ 32 := hfits.sigs_count.trans_lt (by decide)
  intro r
  rw [Bedrock.verifyEntry_eq_ok, verifyEntry_eq_ok, checkPosition_eq_ok, chainHash_eq hprev hfits.body]
  refine and_congr_right fun _ => exists_congr fun genesis => exists_congr fun st' => ?_
  rw [genesisOf_sameOk hutf8 genesis, verifySignatures_eq hcount, apply_sameOk hutf8 hself genesis st']
  have hsigners : ∀ (st : State) (h : Bytes), verifySigners E.toExternals st e h
      = Bedrock.verifySignatures E.toExternals e h e.op.tier (st.signers e.op.tier).1
        (if e.op = .anchor then some st.anchorKeys else none)
        (if e.op = .anchor then 1 else (st.signers e.op.tier).2) := by
    intro st h
    by_cases hop : e.op = .anchor
    · rw [if_pos hop, if_pos hop]
      exact if_pos hop
    · rw [if_neg hop, if_neg hop]
      exact if_neg hop
  rw [hsigners]

theorem utf8_of_verifyEntry (hv : Bedrock.verifyEntry E.toExternals expectSeq st prev e = .ok r) :
    (Entry.of e).Utf8 := by
  obtain ⟨-, genesis, st', hgenesis, -, happly, -⟩ := Bedrock.verifyEntry_eq_ok.mp hv
  rw [Entry.Utf8, Entry.of_texts]
  cases hop : e.op with
  | genesis =>
    rw [Bedrock.genesisOf, if_pos hop] at hgenesis
    obtain ⟨g, hread, -⟩ := map_eq_ok.mp hgenesis
    obtain ⟨g', hparse, -⟩ := bind_eq_ok.mp hread
    obtain ⟨hg, hu⟩ := parseGenesis_iff.mp hparse
    rw [textsOf, hg]
    exact forall_mem_singleton.mpr hu
  | nodeSign =>
    simp only [Bedrock.apply, hop] at happly
    obtain ⟨n, hparse, -⟩ := bind_eq_ok.mp happly
    obtain ⟨hn, hu⟩ := parseNodeSign_iff.mp (mapError_eq_ok.mp hparse)
    rw [textsOf, hn]
    exact forall_mem_singleton.mpr hu
  | nodeRevoke =>
    simp only [Bedrock.apply, hop] at happly
    obtain ⟨n, hparse, -⟩ := bind_eq_ok.mp happly
    obtain ⟨hn, hu⟩ := parseNodeRevoke_iff.mp (mapError_eq_ok.mp hparse)
    rw [textsOf, hn]
    exact forall_mem_cons.mpr ⟨hu.1, forall_mem_singleton.mpr hu.2⟩
  | disable =>
    simp only [Bedrock.apply, hop] at happly
    obtain ⟨n, hparse, -⟩ := bind_eq_ok.mp happly
    obtain ⟨hn, hu⟩ := parseDisable_iff.mp (mapError_eq_ok.mp hparse)
    rw [textsOf, hn]
    exact forall_mem_singleton.mpr hu
  | authorityList => exact fun t ht => by cases ht
  | quorumChange => exact fun t ht => by cases ht
  | anchor => exact fun t ht => by cases ht

theorem selfNamed_of_verifyEntry (hv : verifyEntry E expectSeq st prev (Entry.of e) = .ok r) :
    (Entry.of e).SelfNamed E.toExternals := by
  obtain ⟨-, genesis, st', -, -, happly, -⟩ := verifyEntry_eq_ok.mp hv
  intro hop n hn
  have hother : ∀ op : Op, op ≠ .nodeSign → (Entry.of e).op ≠ ascii op.asStr := by
    intro op hne hop'
    exact hne (Op.asStr_injective (hop'.symm.trans hop))
  have hgenesis : (Entry.of e).op ≠ OpGenesis := hother .genesis (by decide)
  have hauthorities : (Entry.of e).op ≠ OpAuthorityList := hother .authorityList (by decide)
  unfold apply at happly
  rw [if_neg hgenesis, if_neg hauthorities, if_pos hop] at happly
  obtain ⟨n', hn', hrest⟩ := bind_eq_ok.mp happly
  obtain rfl : n' = n := Except.ok.inj (hn'.symm.trans hn)
  obtain ⟨-, hrest⟩ := guard_eq_ok.mp hrest
  exact not_not.mp (guard_eq_ok.mp hrest).1

end

theorem exists_of_verifyEntry {E : Externals} {expectSeq : UInt64} {st : State} {prev : Bytes}
    {e : Entry} {r : State × Bytes} (hv : verifyEntry E expectSeq st prev e = .ok r) :
    ∃ e' : Bedrock.Entry, Entry.of e' = e := by
  obtain ⟨-, hv⟩ := guard_eq_ok.mp hv
  obtain ⟨-, hv⟩ := guard_eq_ok.mp hv
  obtain ⟨tier, htier, -⟩ := bind_eq_ok.mp hv
  obtain ⟨op, hop⟩ := exists_op_of_tierOf (okOr_eq_ok.mp htier)
  refine ⟨⟨e.seq, e.time, op, e.body, e.sigs⟩, ?_⟩
  rw [Entry.of, ← hop]

/-! ### Runs -/

section

variable {E : Externals} {st st' : State} {prev : Bytes} {i : ℕ}

theorem verifyFrom_sameOk (hE : E.toExternals.Digests) {es : List Bedrock.Entry}
    (hes : ∀ e ∈ es, e.Fits ∧ (Entry.of e).Utf8 ∧ (Entry.of e).SelfNamed E.toExternals)
    (hprev : prev.length < 2 ^ 32) (hi : i + es.length < 2 ^ 64) :
    SameOk (Bedrock.verifyFrom E.toExternals i st prev es) (verifyFrom E i st prev (es.map Entry.of)) := by
  induction es generalizing i st prev with
  | nil => exact sameOk_ok st
  | cons e es ih =>
    obtain ⟨⟨hfits, hutf8, hself⟩, hes⟩ := forall_mem_cons.mp hes
    rw [length_cons] at hi
    have hseq : min (i + 1) (2 ^ 64 - 1) = i + 1 := by omega
    rw [Bedrock.verifyFrom, map_cons, verifyFrom, expectedSeq, hseq]
    refine (verifyEntry_sameOk hprev hfits hutf8 hself).bind fun r hr => ?_
    have hlen : r.2.length < 2 ^ 32 := by
      obtain ⟨-, genesis, st₁, -, -, -, hst⟩ := verifyEntry_eq_ok.mp hr
      rw [hst, chainHash, hE]
      decide
    exact ih hes hlen (by omega)

theorem utf8_of_verifyFrom {es : List Bedrock.Entry}
    (hv : Bedrock.verifyFrom E.toExternals i st prev es = .ok st') : ∀ e ∈ es, (Entry.of e).Utf8 := by
  induction es generalizing i st prev with
  | nil => exact fun e he => by cases he
  | cons e es ih =>
    obtain ⟨r, he, hv⟩ := bind_eq_ok.mp hv
    exact forall_mem_cons.mpr ⟨utf8_of_verifyEntry he, ih hv⟩

theorem selfNamed_of_verifyFrom {es : List Entry} (hv : verifyFrom E i st prev es = .ok st') :
    ∀ e ∈ es, e.SelfNamed E.toExternals ∧ e ∈ Set.range Entry.of := by
  induction es generalizing i st prev with
  | nil => exact fun e he => by cases he
  | cons e es ih =>
    obtain ⟨r, he, hrest⟩ := bind_eq_ok.mp hv
    obtain ⟨e', rfl⟩ := exists_of_verifyEntry he
    exact forall_mem_cons.mpr ⟨⟨selfNamed_of_verifyEntry he, e', rfl⟩, ih hrest⟩

end

/-! ### Agreement -/

def nodeState (E : Bedrock.Externals) (b : Bytes) : Except Error State :=
  Bedrock.decodeLog b >>= Bedrock.verifyLog E

def serverState (E : Externals) (b : Bytes) : Except String State := decodeLog b >>= verifyLog E

/-- Both accept or neither, and both establish the same. -/
structure Agree (E : Externals) (b : Bytes) : Prop where
  accepted : (∃ st, nodeState E.toExternals b = .ok st) ↔ ∃ st, serverState E b = .ok st
  head : ∀ st st', nodeState E.toExternals b = .ok st → serverState E b = .ok st' →
    st.head = st'.head ∧ st.headSeq = st'.headSeq
  keys : ∀ st st', nodeState E.toExternals b = .ok st → serverState E b = .ok st' →
    st.roots = st'.roots ∧ st.k = st'.k ∧ st.authorities = st'.authorities ∧ st.q = st'.q
      ∧ st.anchorKeys = st'.anchorKeys
  covered : ∀ st st', nodeState E.toExternals b = .ok st → serverState E b = .ok st' →
    ∀ handle kemPublicKey t, st.isCovered handle kemPublicKey t = isCovered st' handle kemPublicKey t

theorem isCovered_eq (st : State) (handle kemPublicKey : Bytes) (t : ℤ) :
    st.isCovered handle kemPublicKey t = isCovered st handle kemPublicKey t := by
  rw [State.isCovered, isCovered]
  cases st.covered handle with
  | none => rfl
  | some c => cases st.revoked handle <;> simp

section

variable {E : Externals} {b : Bytes} {st : State}

theorem node_utf8 (hv : nodeState E.toExternals b = .ok st) {es : List Entry}
    (hes : decodeLog b = .ok es) : ∀ e ∈ es, e.Utf8 := by
  obtain ⟨es', hdecode, hv⟩ := bind_eq_ok.mp hv
  obtain rfl : es'.map Entry.of = es := Except.ok.inj ((decodeLog_of.mpr hdecode).symm.trans hes)
  rw [forall_mem_map]
  exact utf8_of_verifyFrom (guard_eq_ok.mp hv).2

theorem server_selfNamed (hv : serverState E b = .ok st) {es : List Entry}
    (hes : decodeLog b = .ok es) : ∀ e ∈ es, e.SelfNamed E.toExternals := by
  obtain ⟨es', hdecode, hv⟩ := bind_eq_ok.mp hv
  obtain rfl : es' = es := Except.ok.inj (hdecode.symm.trans hes)
  exact fun e he => (selfNamed_of_verifyFrom (guard_eq_ok.mp hv).2 e he).1

theorem server_decodes (hv : serverState E b = .ok st) : ∃ es, Bedrock.decodeLog b = .ok es := by
  obtain ⟨es, hdecode, hv⟩ := bind_eq_ok.mp hv
  have hknown : es ∈ Set.range (map Entry.of) := by
    rw [Set.range_list_map]
    exact fun e he => (selfNamed_of_verifyFrom (guard_eq_ok.mp hv).2 e he).2
  obtain ⟨es', rfl⟩ := hknown
  exact ⟨es', decodeLog_of.mp hdecode⟩

theorem states_sameOk (hE : E.toExternals.Digests)
    (hrules : ∀ es, decodeLog b = .ok es → ∀ e ∈ es, e.Utf8 ∧ e.SelfNamed E.toExternals) :
    SameOk (nodeState E.toExternals b) (serverState E b) := by
  have hread es (hes : Bedrock.decodeLog b = .ok es) :
      SameOk (Bedrock.verifyLog E.toExternals es) (verifyLog E (es.map Entry.of)) := by
    obtain ⟨hcount, hfits⟩ := (Bedrock.decodeLog_eq_ok.mp hes).1
    have hboth := hrules _ (decodeLog_of.mpr hes)
    rw [forall_mem_map] at hboth
    have hlen : 0 + es.length < 2 ^ 64 := by
      have hmax : MAX_LOG_ENTRIES.toNat < 2 ^ 64 := by decide
      omega
    refine guard ?_ fun _ => verifyFrom_sameOk hE (fun e he => ⟨(hfits e he).1, hboth e he⟩) (by decide) hlen
    rw [List.isEmpty_iff, List.isEmpty_iff, List.map_eq_nil_iff]
  intro st
  constructor
  · intro hv
    obtain ⟨es, hes, hv⟩ := bind_eq_ok.mp hv
    exact bind_eq_ok.mpr ⟨_, decodeLog_of.mpr hes, (hread es hes st).mp hv⟩
  · intro hv
    obtain ⟨es, hes⟩ := server_decodes hv
    obtain ⟨es', hes', hv⟩ := bind_eq_ok.mp hv
    obtain rfl : es.map Entry.of = es' := Except.ok.inj ((decodeLog_of.mpr hes).symm.trans hes')
    exact bind_eq_ok.mpr ⟨es, hes, (hread es hes st).mpr hv⟩

end

/-- **When the implementations agree.**  On a log that the node accepts, exactly if its handles are those
of its identity keys; on one that the server accepts, exactly if its texts are UTF-8. -/
theorem agree_iff {E : Externals} (hE : E.toExternals.Digests) (b : Bytes) : Agree E b ↔
      ((∃ st, nodeState E.toExternals b = .ok st) →
        ∀ es, decodeLog b = .ok es → ∀ e ∈ es, e.SelfNamed E.toExternals)
      ∧ ((∃ st, serverState E b = .ok st) → ∀ es, decodeLog b = .ok es → ∀ e ∈ es, e.Utf8) := by
  constructor
  · intro hagree
    constructor
    · intro hnode es hes
      obtain ⟨st, hv⟩ := hagree.accepted.mp hnode
      exact server_selfNamed hv hes
    · intro hserver es hes
      obtain ⟨st, hv⟩ := hagree.accepted.mpr hserver
      exact node_utf8 hv hes
  · intro hrules
    obtain ⟨hself, hutf8⟩ := hrules
    have hsame : (∃ st, nodeState E.toExternals b = .ok st) ∨ (∃ st, serverState E b = .ok st) →
        SameOk (nodeState E.toExternals b) (serverState E b) := by
      intro haccepted
      refine states_sameOk hE fun es hes e he => ?_
      rcases haccepted with ⟨st, hv⟩ | ⟨st, hv⟩
      · exact ⟨node_utf8 hv hes e he, hself ⟨st, hv⟩ es hes e he⟩
      · exact ⟨hutf8 ⟨st, hv⟩ es hes e he, server_selfNamed hv hes e he⟩
    have heq st st' (hv : nodeState E.toExternals b = .ok st) (hv' : serverState E b = .ok st') :
        st = st' := by
      rw [(hsame (.inl ⟨st, hv⟩) st).mp hv] at hv'
      exact Except.ok.inj hv'
    refine ⟨⟨?_, ?_⟩, ?_, ?_, ?_⟩
    · intro hnode
      obtain ⟨st, hv⟩ := hnode
      exact ⟨st, (hsame (.inl ⟨st, hv⟩) st).mp hv⟩
    · intro hserver
      obtain ⟨st, hv⟩ := hserver
      exact ⟨st, (hsame (.inr ⟨st, hv⟩) st).mpr hv⟩
    · intro st st' hv hv'
      rw [heq st st' hv hv']
      exact ⟨rfl, rfl⟩
    · intro st st' hv hv'
      rw [heq st st' hv hv']
      exact ⟨rfl, rfl, rfl, rfl, rfl⟩
    · intro st st' hv hv' handle kemPublicKey t
      rw [heq st st' hv hv']
      exact isCovered_eq st' handle kemPublicKey t

/-! ### One log each -/

def laxGo : Externals := { lax with quote := fun _ => "" }

theorem putLp_length (b : Bytes) : (putLp b).length = 4 + b.length := by
  rw [putLp, length_append, beBytes_length]

def zoneBody (zone : Bytes) : Genesis := ⟨zone, [toyKey 1], 1, [toyKey 2], 1, []⟩

def zoneEntry (zone : Bytes) : Bedrock.Entry := ⟨1, 0, .genesis, genesisBody (zoneBody zone), [⟨0, []⟩]⟩

theorem fits_of_body {seq : UInt64} {op : Op} {body : Bytes} (h : body.length < 2 ^ 16) :
    (⟨seq, 0, op, body, [⟨0, []⟩]⟩ : Bedrock.Entry).Fits
    ∧ (⟨seq, 0, op, body, [⟨0, []⟩]⟩ : Bedrock.Entry).encode.length < 2 ^ 32 := by
  have hop : (ascii op.asStr).length ≤ 14 := by cases op <;> decide
  refine ⟨⟨by simp [IsTime], by simp only; omega, (by decide : 1 ≤ MAX_SIGNERS.toNat), by simp⟩, ?_⟩
  simp only [Bedrock.Entry.encode, Signature.encode, length_append, putLp_length, beBytes_length,
    map_cons, map_nil, flatten_cons, flatten_nil, length_nil]
  omega

theorem zoneEntry_body (zone : Bytes) : (zoneEntry zone).body.length = zone.length + 5212 := by
  simp only [zoneEntry, genesisBody, putKeys, putOptionalKeys, zoneBody, length_append, putLp_length,
    beBytes_length, toyKey_length, map_cons, map_nil, flatten_cons, flatten_nil,
    length_nil, isEmpty_nil, if_true]
  omega

variable {zone : Bytes}

theorem zoneEntry_logFits (h : zone.length < 2 ^ 15) : Bedrock.LogFits [zoneEntry zone] := by
  refine ⟨(by decide : 1 ≤ MAX_LOG_ENTRIES.toNat), forall_mem_singleton.mpr (fits_of_body ?_)⟩
  show (zoneEntry zone).body.length < 2 ^ 16
  rw [zoneEntry_body]
  omega

theorem zoneEntry_decoded (h : zone.length < 2 ^ 15) :
    decodeLog (encodeLog [zoneEntry zone]) = .ok [Entry.of (zoneEntry zone)] :=
  decodeLog_of.mpr (Bedrock.decodeLog_eq_ok.mpr ⟨zoneEntry_logFits h, rfl⟩)

theorem zoneEntry_parsed (h : zone.length < 2 ^ 15) :
    parseGenesis (zoneEntry zone).body = .ok (zoneBody zone) := by
  have hkeys := toyBody_encodable
  exact parseGenesis_eq_ok.mpr ⟨⟨h.trans (by decide), hkeys.roots, hkeys.authorities, hkeys.anchorKeys⟩, rfl⟩

theorem zoneEntry_server (h : zone.length < 2 ^ 15) :
    ∃ st, serverState laxGo (encodeLog [zoneEntry zone]) = .ok st := by
  have hop : (Entry.of (zoneEntry zone)).op = OpGenesis := (Entry.of_op_eq .genesis).mpr rfl
  have hread : genesisOf (Entry.of (zoneEntry zone)) = .ok (some (zoneBody zone)) := by
    rw [genesisOf, if_pos hop]
    show ((parseGenesis (zoneEntry zone).body).mapError _ >>= _) = _
    rw [zoneEntry_parsed h]
    rfl
  obtain ⟨st', happly⟩ : ∃ st', apply laxGo (installRoots State.default (some (zoneBody zone)))
      (Entry.of (zoneEntry zone)) (some (zoneBody zone)) = .ok st' := by
    unfold apply
    rw [if_pos hop]
    exact ⟨_, rfl⟩
  obtain ⟨r, hr⟩ : ∃ r, verifyEntry laxGo 1 State.default [] (Entry.of (zoneEntry zone)) = .ok r :=
    ⟨_, verifyEntry_eq_ok.mpr ⟨⟨rfl, le_rfl, by simp [zoneEntry]⟩, _, st', hread, rfl, happly, rfl⟩⟩
  refine ⟨r.1, bind_eq_ok.mpr ⟨_, zoneEntry_decoded h, ?_⟩⟩
  show (verifyEntry laxGo 1 State.default [] (Entry.of (zoneEntry zone)) >>= fun r => .ok r.1) = _
  rw [hr]
  rfl

theorem zoneEntry_texts (h : zone.length < 2 ^ 15) : (Entry.of (zoneEntry zone)).texts = [zone] := by
  rw [Entry.of_texts, show (zoneEntry zone).op = .genesis from rfl, textsOf, zoneEntry_parsed h]
  rfl

theorem agree_iff_zoneEntry : Agree laxGo (encodeLog [zoneEntry []]) := by
  refine (agree_iff lax_digests _).mpr ⟨fun _ es hes e he => ?_, fun _ es hes e he => ?_⟩ <;>
    rw [zoneEntry_decoded (by decide)] at hes <;> cases hes <;> cases mem_singleton.mp he
  · intro hop
    exact absurd hop (by decide)
  · rw [Entry.Utf8, zoneEntry_texts (by decide)]
    exact forall_mem_singleton.mpr rfl

theorem laxLog_logFits : Bedrock.LogFits (laxLog [] 3) := by
  refine ⟨(by decide : 2 ≤ MAX_LOG_ENTRIES.toNat), forall_mem_cons.mpr
    ⟨(zoneEntry_logFits (by decide)).2 _ (mem_singleton_self _),
      forall_mem_singleton.mpr (fits_of_body ?_)⟩⟩
  simp only [nodeSignBody, toyNode, length_append, putLp_length, beBytes_length, toyKey_length,
    length_replicate, length_singleton, KEM_PUBLIC_KEY]
  decide

theorem laxLog_node : ∃ st, nodeState lax (encodeLog (laxLog [] 3)) = .ok st := by
  obtain ⟨st, hv⟩ := laxLog_verified [] 3
  exact ⟨st, bind_eq_ok.mpr ⟨_, Bedrock.decodeLog_eq_ok.mpr ⟨laxLog_logFits, rfl⟩, hv⟩⟩

/-- **One log each.**  The node accepts a handle that the server refuses, and the server a zone that the
node refuses. -/
theorem implementations_disagree : (∃ st, nodeState lax (encodeLog (laxLog [] 3)) = .ok st)
    ∧ (∀ st, serverState laxGo (encodeLog (laxLog [] 3)) ≠ .ok st) ∧ ¬ Agree laxGo (encodeLog (laxLog [] 3))
    ∧ (∃ st, serverState laxGo (encodeLog [zoneEntry [0xff]]) = .ok st)
    ∧ (∀ st, nodeState lax (encodeLog [zoneEntry [0xff]]) ≠ .ok st)
    ∧ ¬ Agree laxGo (encodeLog [zoneEntry [0xff]]) := by
  have hserver : ∀ st, serverState laxGo (encodeLog (laxLog [] 3)) ≠ .ok st := by
    intro st hv
    have hself := server_selfNamed hv (decodeLog_of.mpr (Bedrock.decodeLog_eq_ok.mpr
      ⟨laxLog_logFits, rfl⟩)) (Entry.of (laxEntry 3)) (mem_map_of_mem (by simp [laxLog]))
    have hhandle := hself ((Entry.of_op_eq .nodeSign).mpr rfl) (toyNode 3)
      (parseNodeSign_iff.mp (Bedrock.parseNodeSign_eq_ok.mpr ⟨toyNode_encodable 3, rfl⟩)).1
    -- the digits of a handle come in fours
    have hlen : (nodeHandle lax (toyNode 3).identityKey).length = _ := base64Encode_length _
    have hone : (nodeHandle lax (toyNode 3).identityKey).length = 1 := congrArg length hhandle
    omega
  have hnode : ∀ st, nodeState lax (encodeLog [zoneEntry [0xff]]) ≠ .ok st := by
    intro st hv
    have hutf8 := node_utf8 (E := laxGo) hv (zoneEntry_decoded (by decide)) _ (mem_singleton_self _)
    rw [Entry.Utf8, zoneEntry_texts (by decide)] at hutf8
    exact absurd (hutf8 [0xff] (mem_singleton_self _)) (by decide)
  refine ⟨laxLog_node, hserver, ?_, zoneEntry_server (by decide), hnode, ?_⟩
  · intro hagree
    obtain ⟨st, hv⟩ := hagree.accepted.mp laxLog_node
    exact hserver st hv
  · intro hagree
    obtain ⟨st, hv⟩ := hagree.accepted.mpr (zoneEntry_server (by decide))
    exact hnode st hv

end Karst.Bedrock.Go
