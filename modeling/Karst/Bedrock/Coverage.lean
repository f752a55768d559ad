import Karst.Bedrock.Verify
import Karst.Bedrock.Canonical

/-!
# What a verified log covers

Read as a history, a log is a sequence of `node-sign`s and `node-revoke`s; a handle is covered by
its last `node-sign`, unless revoked since.  `Follows` says that the verifier's tables are that
reading, and `verifyLog_follows` that every accepted log establishes it.

The documentation of `PeerKeys` promises more: that verification checks
`handle == node_handle(identity_key)`.  `apply` makes no such check.
-/

namespace Karst.Bedrock

open Option Function Except
open List hiding Vector

/-! ### The log as a history of nodes -/

inductive NodeEvent where
  | sign (n : NodeSign)
  | revoke (r : NodeRevoke)

namespace NodeEvent

def handle : NodeEvent → Bytes
  | .sign n => n.handle
  | .revoke r => r.handle

def signed : NodeEvent → Option NodeSign
  | .sign n => some n
  | .revoke _ => none

def effective : NodeEvent → Option ℤ
  | .sign _ => none
  | .revoke r => some r.effective

end NodeEvent

def Entry.nodeEvent (e : Entry) : Option NodeEvent :=
  match e.op with
  | .nodeSign => (parseNodeSign e.body).toOption.map .sign
  | .nodeRevoke => (parseNodeRevoke e.body).toOption.map .revoke
  | _ => none

/-- What the entries say about one handle, oldest first. -/
def eventsOf (handle : Bytes) (entries : List Entry) : List NodeEvent :=
  (entries.filterMap Entry.nodeEvent).filter fun ev => ev.handle == handle

def lastSign (handle : Bytes) (entries : List Entry) : Option NodeSign :=
  ((eventsOf handle entries).filterMap NodeEvent.signed).getLast?

/-- The effective time of the revocation in force for a handle: that of its last `node-revoke`, if
no `node-sign` came after it. -/
def revokedSince (handle : Bytes) (entries : List Entry) : Option ℤ :=
  (eventsOf handle entries).getLast?.bind NodeEvent.effective

def NodeSign.coverage (n : NodeSign) : NodeCoverage :=
  ⟨n.handle, n.identityKey, n.kemPublicKey, n.notBefore, n.expiry⟩

theorem eventsOf_concat (handle : Bytes) (entries : List Entry) (e : Entry) : eventsOf handle (entries ++ [e])
      = eventsOf handle entries ++ (e.nodeEvent.toList.filter fun ev => ev.handle == handle) := by
  simp only [eventsOf, filterMap_append, filter_append]
  cases h : e.nodeEvent <;> simp [h]

section

variable {entries : List Entry} {e : Entry}

section

variable {handle : Bytes} (h : ∀ ev, e.nodeEvent = some ev → handle ≠ ev.handle)

include h

theorem eventsOf_other : eventsOf handle (entries ++ [e]) = eventsOf handle entries := by
  rw [eventsOf_concat]
  cases he : e.nodeEvent with
  | none => simp
  | some ev => simp [(h ev he).symm]

theorem lastSign_other : lastSign handle (entries ++ [e]) = lastSign handle entries := by
  rw [lastSign, eventsOf_other h]
  rfl

theorem revokedSince_other : revokedSince handle (entries ++ [e]) = revokedSince handle entries := by
  rw [revokedSince, eventsOf_other h]
  rfl

end

variable {ev : NodeEvent} (h : e.nodeEvent = some ev)

include h

theorem eventsOf_own : eventsOf ev.handle (entries ++ [e]) = eventsOf ev.handle entries ++ [ev] := by
  rw [eventsOf_concat, h]
  simp

theorem lastSign_own : lastSign ev.handle (entries ++ [e]) = ev.signed.or (lastSign ev.handle entries) := by
  rw [lastSign, eventsOf_own h, filterMap_append]
  cases hs : ev.signed <;> simp [hs, lastSign]

theorem revokedSince_own : revokedSince ev.handle (entries ++ [e]) = ev.effective := by
  rw [revokedSince, eventsOf_own h]
  simp

end

theorem lastSign_handle {handle : Bytes} {entries : List Entry} {n : NodeSign}
    (h : lastSign handle entries = some n) :
    n.handle = handle ∧ ∃ e ∈ entries, e.op = .nodeSign ∧ parseNodeSign e.body = .ok n := by
  have hmem := mem_of_getLast? h
  obtain ⟨ev, hev, hsigned⟩ := mem_filterMap.mp hmem
  obtain ⟨hin, hhandle⟩ := mem_filter.mp hev
  obtain ⟨e, he, hevent⟩ := mem_filterMap.mp hin
  cases ev with
  | revoke r => simp [NodeEvent.signed] at hsigned
  | sign m =>
    obtain rfl : m = n := some.inj hsigned
    refine ⟨by simpa [NodeEvent.handle] using hhandle, e, he, ?_⟩
    unfold Entry.nodeEvent at hevent
    split at hevent
    · rename_i hop
      cases hp : parseNodeSign e.body with
      | error err => simp [hp, Except.toOption] at hevent
      | ok m' =>
        simp only [hp, Except.toOption, Option.map_some, Option.some.injEq, NodeEvent.sign.injEq] at hevent
        exact ⟨hop, by rw [hevent]⟩
    · cases hp : parseNodeRevoke e.body <;> simp [hp, Except.toOption] at hevent
    · simp at hevent

/-! ### The verifier's tables -/

/-- The tables of the state are the log's own reading, and every coverage has begun before it
expires. -/
structure Follows (entries : List Entry) (st : State) : Prop where
  covered_eq : ∀ handle, st.covered handle = (lastSign handle entries).map NodeSign.coverage
  revoked_eq : ∀ handle, st.revoked handle = revokedSince handle entries
  window : ∀ handle c, st.covered handle = some c → c.expiry = 0 ∨ c.notBefore < c.expiry

theorem follows_default : Follows [] State.default where
  covered_eq _ := rfl
  revoked_eq _ := rfl
  window handle c h := by simp [State.default] at h

variable {E : Externals} {entries : List Entry} {st st' : State} {e : Entry}

variable (h : Follows entries st)
include h

theorem Follows.congr (hc : st'.covered = st.covered)
    (hr : st'.revoked = st.revoked) : Follows entries st' where
  covered_eq handle := by rw [hc, h.covered_eq]
  revoked_eq handle := by rw [hr, h.revoked_eq]
  window handle c := by rw [hc]; exact h.window handle c

theorem Follows.silent (he : e.nodeEvent = none) : Follows (entries ++ [e]) st := by
  have hother handle ev (hev : e.nodeEvent = some ev) : handle ≠ ev.handle := by
    rw [he] at hev
    simp at hev
  refine ⟨?_, ?_, h.window⟩
  · intro handle
    rw [h.covered_eq, lastSign_other (hother handle)]
  · intro handle
    rw [h.revoked_eq, revokedSince_other (hother handle)]

theorem Follows.event {ev : NodeEvent} (he : e.nodeEvent = some ev)
    (hwindow : ∀ n, ev.signed = some n → n.expiry = 0 ∨ n.notBefore < n.expiry)
    (hc : st'.covered = update st.covered ev.handle
      ((ev.signed.map NodeSign.coverage).or (st.covered ev.handle)))
    (hr : st'.revoked = update st.revoked ev.handle ev.effective) : Follows (entries ++ [e]) st' := by
  have hother handle (hne : handle ≠ ev.handle) ev' (hev : e.nodeEvent = some ev') : handle ≠ ev'.handle := by
    rw [he] at hev
    rwa [← some.inj hev]
  refine ⟨?_, ?_, ?_⟩
  · intro handle
    rw [hc]
    by_cases hh : handle = ev.handle
    · rw [hh, update_self, lastSign_own he, h.covered_eq]
      cases ev.signed <;> rfl
    · rw [update_of_ne hh, h.covered_eq, lastSign_other (hother handle hh)]
  · intro handle
    rw [hr]
    by_cases hh : handle = ev.handle
    · rw [hh, update_self, revokedSince_own he]
    · rw [update_of_ne hh, h.revoked_eq, revokedSince_other (hother handle hh)]
  · intro handle c hcov
    rw [hc] at hcov
    by_cases hh : handle = ev.handle
    · rw [hh, update_self] at hcov
      cases hs : ev.signed with
      | none =>
        rw [hs, map_none, none_or] at hcov
        exact h.window _ c hcov
      | some n =>
        rw [hs, map_some, some_or, some.injEq] at hcov
        rw [← hcov]
        exact hwindow n hs
    · rw [update_of_ne hh] at hcov
      exact h.window handle c hcov

theorem apply_follows {genesis : Option Genesis}
    (ha : apply E st e genesis = .ok st') : Follows (entries ++ [e]) st' := by
  unfold apply at ha
  cases hop : e.op with
  | genesis =>
    simp only [hop] at ha
    obtain ⟨g, -, hst⟩ := bind_eq_ok.mp ha
    rw [← ok.inj hst]
    exact (h.silent (by simp [Entry.nodeEvent, hop])).congr rfl rfl
  | authorityList =>
    simp only [hop] at ha
    obtain ⟨a, -, ha⟩ := bind_eq_ok.mp ha
    obtain ⟨-, -, ha⟩ := bind_eq_ok.mp ha
    obtain ⟨-, -, hst⟩ := bind_eq_ok.mp ha
    rw [← ok.inj hst]
    exact (h.silent (by simp [Entry.nodeEvent, hop])).congr rfl rfl
  | nodeSign =>
    simp only [hop] at ha
    obtain ⟨n, hn, ha⟩ := bind_eq_ok.mp ha
    obtain ⟨hexp, hst⟩ := guard_eq_ok.mp ha
    have he : e.nodeEvent = some (.sign n) := by
      simp [Entry.nodeEvent, hop, mapError_eq_ok.mp hn, Except.toOption]
    rw [← ok.inj hst]
    refine h.event he ?_ rfl rfl
    intro m hm
    obtain rfl : n = m := some.inj hm
    by_cases hz : n.expiry = 0
    · exact Or.inl hz
    · exact Or.inr (Int.not_le.mp fun hle => hexp ⟨hz, hle⟩)
  | nodeRevoke =>
    simp only [hop] at ha
    obtain ⟨r, hr, hst⟩ := bind_eq_ok.mp ha
    have he : e.nodeEvent = some (.revoke r) := by
      simp [Entry.nodeEvent, hop, mapError_eq_ok.mp hr, Except.toOption]
    rw [← ok.inj hst]
    refine h.event he ?_ ?_ rfl
    · intro m hm
      simp [NodeEvent.signed] at hm
    · exact (update_eq_self r.handle st.covered).symm
  | quorumChange =>
    simp only [hop] at ha
    obtain ⟨q, -, ha⟩ := bind_eq_ok.mp ha
    obtain ⟨-, hst⟩ := guard_eq_ok.mp ha
    rw [← ok.inj hst]
    exact (h.silent (by simp [Entry.nodeEvent, hop])).congr rfl rfl
  | anchor =>
    simp only [hop] at ha
    obtain ⟨a, -, ha⟩ := bind_eq_ok.mp ha
    have hsame : st'.covered = st.covered ∧ st'.revoked = st.revoked := by
      cases hprev : st.anchor with
      | none =>
        rw [hprev] at ha
        rw [← ok.inj ha]
        exact ⟨rfl, rfl⟩
      | some prev =>
        rw [hprev] at ha
        rw [← ok.inj (guard_eq_ok.mp ha).2]
        exact ⟨rfl, rfl⟩
    exact (h.silent (by simp [Entry.nodeEvent, hop])).congr hsame.1 hsame.2
  | disable =>
    simp only [hop] at ha
    obtain ⟨reason, -, hst⟩ := bind_eq_ok.mp ha
    rw [← ok.inj hst]
    exact (h.silent (by simp [Entry.nodeEvent, hop])).congr rfl rfl

theorem verifyEntry_follows {expectSeq : UInt64} {prev hash : Bytes}
    (hv : verifyEntry E expectSeq st prev e = .ok (st', hash)) : Follows (entries ++ [e]) st' := by
  obtain ⟨-, genesis, st₁, -, -, happly, hst⟩ := verifyEntry_eq_ok.mp hv
  have hroots : Follows entries (installRoots st genesis) := by
    cases genesis with
    | none => exact h
    | some g => exact h.congr rfl rfl
  rw [(Prod.mk.inj hst).1]
  exact (apply_follows hroots happly).congr rfl rfl

omit h

theorem verifyLog_follows (hv : verifyLog E entries = .ok st) : Follows entries st :=
  stateAfter_induction follows_default (fun _ _ _ _ h he => verifyEntry_follows h he)
    (verifyLog_eq_ok.mp hv).2

/-! ### The promise about handles -/

/-- The `node-sign` that stands for a handle: its latest, unless it was revoked before it began. -/
def Standing (entries : List Entry) (handle : Bytes) (n : NodeSign) : Prop :=
  lastSign handle entries = some n ∧ ∀ eff, revokedSince handle entries = some eff → n.notBefore < eff

/-- A handle is covered for some key at some time exactly when a `node-sign` stands for it. -/
theorem coverable_iff (hf : Follows entries st) (handle : Bytes) :
    (∃ kem t, st.isCovered handle kem t = true) ↔ ∃ n, Standing entries handle n := by
  constructor
  · rintro ⟨kem, t, h⟩
    unfold State.isCovered at h
    rw [hf.covered_eq, hf.revoked_eq] at h
    cases hl : lastSign handle entries with
    | none => simp [hl] at h
    | some n =>
      simp only [hl, map_some] at h
      refine ⟨n, hl, ?_⟩
      intro eff heff
      rw [heff] at h
      split at h
      · simp at h
      · split at h
        · simp at h
        · rename_i hstart
          split at h
          · simp at h
          · have hlate : ¬ eff ≤ t := by
              intro hle
              simp [hle] at h
            have hbegin : ¬ t < n.notBefore := hstart
            omega
  · rintro ⟨n, hl, hrev⟩
    have hcov : st.covered handle = some n.coverage := by rw [hf.covered_eq, hl, map_some]
    have hwindow := hf.window handle n.coverage hcov
    refine ⟨n.kemPublicKey, n.notBefore, ?_⟩
    unfold State.isCovered
    rw [hcov, hf.revoked_eq]
    have hopen : ¬ (n.coverage.expiry ≠ 0 ∧ n.coverage.expiry ≤ n.notBefore) := by
      rintro ⟨hne, hle⟩
      rcases hwindow with hz | hlt
      · exact hne hz
      · exact absurd hlt (Int.not_lt.mpr hle)
    have hkem : ¬ n.coverage.kemPublicKey ≠ n.kemPublicKey := not_not.mpr rfl
    have hbegun : ¬ n.notBefore < n.coverage.notBefore := lt_irrefl n.notBefore
    dsimp only
    rw [if_neg hkem, if_neg hbegun, if_neg hopen]
    cases hr : revokedSince handle entries with
    | none => rfl
    | some eff =>
      have := hrev eff hr
      simp only
      rw [if_neg (by omega)]

/-- Every handle reported as covered was added by a `node-sign` of the log whose handle is the one
its identity key derives to. -/
def SelfCertified (E : Externals) (entries : List Entry) (st : State) : Prop :=
  ∀ handle kem t, st.isCovered handle kem t = true →
    ∃ e ∈ entries, ∃ n, e.op = .nodeSign ∧ parseNodeSign e.body = .ok n ∧ n.handle = handle
      ∧ st.covered handle = some n.coverage ∧ n.handle = nodeHandle E n.identityKey

/-- **Covered means self-certified**, exactly if every standing `node-sign` is; then a handle
belongs to one identity key. -/
theorem covered_selfCertified_iff (h : verifyLog E entries = .ok st) : (SelfCertified E entries st
      ↔ ∀ handle n, Standing entries handle n → n.handle = nodeHandle E n.identityKey)
    ∧ (Function.Injective (nodeHandle E) → SelfCertified E entries st →
      ∀ entries' st', verifyLog E entries' = .ok st' → SelfCertified E entries' st' →
      ∀ handle kem t kem' t' c c', st.isCovered handle kem t = true →
        st'.isCovered handle kem' t' = true → st.covered handle = some c →
        st'.covered handle = some c' → c.identityKey = c'.identityKey) := by
  have hf := verifyLog_follows h
  refine ⟨⟨?_, ?_⟩, ?_⟩
  · intro hself handle n hn
    obtain ⟨kem, t, hcov⟩ := (coverable_iff hf handle).mpr ⟨n, hn⟩
    obtain ⟨e, -, m, -, -, hhandle, hm, hcert⟩ := hself handle kem t hcov
    have hsame : m.coverage = n.coverage := by
      rw [hf.covered_eq, hn.1, map_some] at hm
      exact (some.inj hm).symm
    have hid : m.identityKey = n.identityKey := congrArg NodeCoverage.identityKey hsame
    rw [← hid, ← hcert, hhandle]
    exact (lastSign_handle hn.1).1
  · intro hstand handle kem t hcov
    obtain ⟨n, hn⟩ := (coverable_iff hf handle).mp ⟨kem, t, hcov⟩
    obtain ⟨hhandle, e, he, hop, hparse⟩ := lastSign_handle hn.1
    refine ⟨e, he, n, hop, hparse, hhandle, ?_, hstand handle n hn⟩
    rw [hf.covered_eq, hn.1, map_some]
  · intro hinj hself entries' st' h' hself' handle kem t kem' t' c c' hcov hcov' hc hc'
    obtain ⟨-, -, n, -, -, hhandle, hn, hcert⟩ := hself handle kem t hcov
    obtain ⟨-, -, n', -, -, hhandle', hn', hcert'⟩ := hself' handle kem' t' hcov'
    have hkeys : n.identityKey = n'.identityKey :=
      hinj (by rw [← hcert, ← hcert', hhandle, hhandle'])
    rw [hc, some.injEq] at hn
    rw [hc', some.injEq] at hn'
    rw [hn, hn']
    exact hkeys

/-! ### Two keys under one name -/

/-- A checkable instance, under which no two keys share a handle; a signature is the first byte of
the key followed by what is signed. -/
def toy : Externals where
  sha256 b := b
  sha512 b := [UInt8.ofNat b.length, b.getLastD 0]
  verifyRoot key msg sig := sig == key.take 1 ++ msg
  verifyAuthority key msg sig := sig == key.take 1 ++ msg
  verifyAnchorKey key msg sig := sig == key.take 1 ++ msg
  debug _ := ""

def toyEntry (prev : Bytes) (seq : UInt64) (op : Op) (body key : Bytes) : Entry :=
  ⟨seq, 0, op, body, [⟨0, key.take 1 ++ chainHash toy prev seq 0 op body⟩]⟩

def toyKey (b : UInt8) : Bytes := List.replicate 2592 b

def toyBody : Genesis := ⟨[], [toyKey 1], 1, [toyKey 2], 1, []⟩

def toyGenesis : Entry := toyEntry [] 1 .genesis (genesisBody toyBody) (toyKey 1)

def toyHead : Bytes := chainHash toy [] 1 0 .genesis (genesisBody toyBody)

def toyNode (b : UInt8) : NodeSign := ⟨[110], toyKey b, List.replicate KEM_PUBLIC_KEY 5, 0, 0⟩

def toyLog (b : UInt8) : List Entry :=
  [toyGenesis, toyEntry toyHead 2 .nodeSign (nodeSignBody (toyNode b)) (toyKey 2)]

theorem toyKey_length (b : UInt8) : (toyKey b).length = 2592 := length_replicate

theorem toyBody_encodable : toyBody.Encodable where
  zone := ⟨by decide, rfl⟩
  roots := ⟨by decide, by simp [toyBody, toyKey_length, ROOT_PUBLIC_KEY]⟩
  authorities := ⟨by decide, by simp [toyBody, toyKey_length, AUTHORITY_PUBLIC_KEY]⟩
  anchorKeys := ⟨by decide, by simp [toyBody]⟩

theorem toyNode_encodable (b : UInt8) : (toyNode b).Encodable where
  handle := ⟨by simp [toyNode], rfl⟩
  handle_nonempty := by simp [toyNode]
  identityKey := toyKey_length b
  kemPublicKey := length_replicate
  notBefore := by simp [toyNode, IsTime]
  expiry := by simp [toyNode, IsTime]

theorem toyEntry_signed {prev : Bytes} {seq : UInt64} {op : Op} {body key : Bytes}
    (hop : op ≠ .anchor) (hkeys : st.signers op.tier = ([key], 1)) :
    verifySigners toy st (toyEntry prev seq op body key) (chainHash toy prev seq 0 op body) = .ok () := by
  have hcheck : checkSignature toy (chainHash toy prev seq 0 op body) op.tier [key] none
      ⟨0, key.take 1 ++ chainHash toy prev seq 0 op body⟩ = .ok true := by
    cases htier : op.tier <;> simp [checkSignature, toy]
  show (if op = .anchor then _ else verifySignatures toy _ _ op.tier (st.signers op.tier).1 none
    (st.signers op.tier).2) = _
  rw [if_neg hop, hkeys]
  simp only [verifySignatures, toyEntry, checkSignatures, hcheck]
  rfl

def toyState : State :=
  { State.default with
    roots := [toyKey 1], k := 1, authorities := [toyKey 2], q := 1, head := toyHead, headSeq := 1 }

theorem toyGenesis_read : genesisOf toyGenesis = .ok (some toyBody) := by
  have hparse : parseGenesis toyGenesis.body = .ok toyBody :=
    parseGenesis_eq_ok.mpr ⟨toyBody_encodable, rfl⟩
  show (readGenesis toyGenesis).map some = _
  rw [readGenesis, hparse]
  rfl

theorem toyGenesis_verified : verifyEntry toy 1 State.default [] toyGenesis = .ok (toyState, toyHead) := by
  have hsigned : verifySigners toy (installRoots State.default (some toyBody)) toyGenesis toyHead
      = .ok () := toyEntry_signed (by decide) rfl
  exact verifyEntry_eq_ok.mpr ⟨rfl, some toyBody, _, toyGenesis_read, hsigned, rfl, rfl⟩

def toyCovered (b : UInt8) : State :=
  { toyState with
    revoked := Function.update toyState.revoked [110] none
    covered := Function.update toyState.covered [110] (some (toyNode b).coverage) }

theorem toyNode_verified (b : UInt8) : ∃ h, verifyEntry toy 2 toyState toyHead
      (toyEntry toyHead 2 .nodeSign (nodeSignBody (toyNode b)) (toyKey 2))
      = .ok ({ toyCovered b with headSeq := 2, head := h }, h) := by
  set e := toyEntry toyHead 2 .nodeSign (nodeSignBody (toyNode b)) (toyKey 2) with he
  have hparse : parseNodeSign e.body = .ok (toyNode b) :=
    parseNodeSign_eq_ok.mpr ⟨toyNode_encodable b, rfl⟩
  have hsigned : verifySigners toy toyState e (chainHash toy toyHead 2 0 .nodeSign e.body)
      = .ok () := toyEntry_signed (by decide) rfl
  have happly : apply toy toyState e none = .ok (toyCovered b) := by
    show (Except.mapError _ (parseNodeSign e.body) >>= _) = _
    rw [hparse]
    rfl
  exact ⟨_, verifyEntry_eq_ok.mpr ⟨rfl, none, _, rfl, hsigned, happly, rfl⟩⟩

theorem toyLog_verified (b : UInt8) : ∃ st, verifyLog toy (toyLog b) = .ok st
    ∧ st.covered [110] = some (toyNode b).coverage ∧ st.revoked [110] = none := by
  obtain ⟨h, hnode⟩ := toyNode_verified b
  have hcov : (toyCovered b).covered [110] = some (toyNode b).coverage := by
    simp [toyCovered]
  have hrev : (toyCovered b).revoked [110] = none := by simp [toyCovered]
  refine ⟨{ toyCovered b with headSeq := 2, head := h }, ?_, hcov, hrev⟩
  show (verifyEntry toy 1 State.default [] toyGenesis >>= _) = _
  rw [toyGenesis_verified, ok_bind]
  show (verifyEntry toy 2 toyState toyHead _ >>= _) = _
  rw [hnode]
  rfl

theorem toy_nodeHandle_injective : Injective (nodeHandle toy) :=
  base64Encode_injective.comp (append_right_injective _)

theorem toyNode_isCovered {b : UInt8}
    (hcov : st.covered [110] = some (toyNode b).coverage) (hrev : st.revoked [110] = none) :
    st.isCovered [110] (toyNode b).kemPublicKey 0 = true := by
  rw [State.isCovered, hcov, hrev]
  simp [NodeSign.coverage, toyNode]

theorem toyLog_selfCertified_iff : ∃ st, verifyLog toy (toyLog 3) = .ok st ∧ (SelfCertified toy (toyLog 3) st
      ↔ ∀ handle n, Standing (toyLog 3) handle n → n.handle = nodeHandle toy n.identityKey) := by
  obtain ⟨st, h, -⟩ := toyLog_verified 3
  exact ⟨st, h, (covered_selfCertified_iff h).1⟩

/-- **Two keys under one name.**  Both logs are accepted and cover the handle `n`, which neither key
derives to. -/
theorem mismatched_handle_covered : ∃ st st', verifyLog toy (toyLog 3) = .ok st
    ∧ verifyLog toy (toyLog 4) = .ok st' ∧ st.isCovered [110] (toyNode 3).kemPublicKey 0 = true
    ∧ st'.isCovered [110] (toyNode 4).kemPublicKey 0 = true
    ∧ (st.covered [110]).map NodeCoverage.identityKey = some (toyKey 3)
    ∧ (st'.covered [110]).map NodeCoverage.identityKey = some (toyKey 4)
    ∧ Function.Injective (nodeHandle toy) ∧ toyKey 3 ≠ toyKey 4 ∧ ¬ SelfCertified toy (toyLog 3) st := by
  obtain ⟨st, h, hcov, hrev⟩ := toyLog_verified 3
  obtain ⟨st', h', hcov', hrev'⟩ := toyLog_verified 4
  refine ⟨st, st', h, h', toyNode_isCovered hcov hrev, toyNode_isCovered hcov' hrev',
    by rw [hcov]; rfl, by rw [hcov']; rfl, toy_nodeHandle_injective, ?_, ?_⟩
  · intro hkey
    exact absurd (head_eq_of_cons_eq hkey) (by decide)
  · intro hself
    obtain ⟨-, -, n, -, -, hhandle, -, hcert⟩ := hself _ _ _ (toyNode_isCovered hcov hrev)
    -- the digits of a handle come in fours
    have hlen : (nodeHandle toy n.identityKey).length = _ := base64Encode_length _
    rw [← hcert, hhandle, length_singleton] at hlen
    omega

end Karst.Bedrock
