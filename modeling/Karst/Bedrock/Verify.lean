import Karst.Bedrock.Log

/-!
# Chain verification

`karst-bedrock/src/verify.rs`: the state a log establishes, entry by entry.  Every check is made in
the source's order; a body is read only after the signatures over it have verified, except that of
genesis, which defines the keys its own signatures are checked against.
-/

namespace Karst.Bedrock

structure NodeCoverage where
  handle : Bytes
  identityKey : Bytes
  kemPublicKey : Bytes
  notBefore : ℤ
  expiry : ℤ

structure State where
  zone : Bytes
  roots : List Bytes
  k : UInt32
  authorities : List Bytes
  q : UInt32
  anchorKeys : List Bytes
  /-- The latest `node-sign` per handle. -/
  covered : Bytes → Option NodeCoverage
  /-- The effective time of the latest `node-revoke` per handle. -/
  revoked : Bytes → Option ℤ
  disabled : Bool
  disabledReason : Bytes
  anchor : Option Anchor
  head : Bytes
  headSeq : UInt64
  lastTime : ℤ

namespace State

def default : State where
  zone := []
  roots := []
  k := 0
  authorities := []
  q := 0
  anchorKeys := []
  covered _ := none
  revoked _ := none
  disabled := false
  disabledReason := []
  anchor := none
  head := []
  headSeq := 0
  lastTime := 0

/-- Whether a handle presenting this key may be peered with at time `t`. -/
def isCovered (st : State) (handle kemPublicKey : Bytes) (t : ℤ) : Bool :=
  match st.covered handle with
  | none => false
  | some c =>
    if c.kemPublicKey ≠ kemPublicKey then false
    else if t < c.notBefore then false
    else if c.expiry ≠ 0 ∧ c.expiry ≤ t then false
    else match st.revoked handle with
      | some eff => if eff ≤ t then false else true
      | none => true

end State

def Error.text (E : Externals) : Error → String
  | .malformed => "malformed encoding"
  | .unknownOp op => s!"unknown op {E.debug op}"
  | .broken seq why => s!"chain broken at entry {seq}: {why}"

/-! ### Signatures -/

/-- The key and check a signer index stands for: the tier's list, and past it, for an anchor, the
anchor keys. -/
def checkSignature (E : Externals) (entryHash : Bytes) (tier : Tier) (keys : List Bytes)
    (anchorKeys : Option (List Bytes)) (s : Signature) : Except String Bool :=
  let idx := s.signerIndex.toNat
  match keys[idx]? with
  | some key =>
    .ok (match tier with
      | .root => E.verifyRoot key entryHash s.sig
      | .authority => E.verifyAuthority key entryHash s.sig)
  | none =>
    match anchorKeys.bind fun ks => if keys.length ≤ idx then ks[idx - keys.length]? else none with
    | some key => .ok (E.verifyAnchorKey key entryHash s.sig)
    | none =>
      .error s!"signer index {s.signerIndex} is out of range for {keys.length} keys"

/-- The loop over the signatures; `seen` are the signers so far. -/
def checkSignatures (E : Externals) (entryHash : Bytes) (tier : Tier) (keys : List Bytes)
    (anchorKeys : Option (List Bytes)) : List UInt32 → List Signature → Except String Unit
  | _, [] => .ok ()
  | seen, s :: sigs => do
    -- a signer that repeats itself must not count twice
    if s.signerIndex ∈ seen then .error s!"signer {s.signerIndex} appears twice" else
    let ok ← checkSignature E entryHash tier keys anchorKeys s
    if ok = false then .error s!"signature from signer {s.signerIndex} does not verify" else
    checkSignatures E entryHash tier keys anchorKeys (s.signerIndex :: seen) sigs

def verifySignatures (E : Externals) (e : Entry) (entryHash : Bytes) (tier : Tier)
    (keys : List Bytes) (anchorKeys : Option (List Bytes)) (threshold : UInt32) : Except String Unit :=
  if threshold = 0 then .error "no threshold established for this tier"
  else if min e.sigs.length (2 ^ 32 - 1) < threshold.toNat then
    .error s!"{e.sigs.length} signatures, need {threshold}"
  else checkSignatures E entryHash tier keys anchorKeys [] e.sigs

/-! ### Bodies -/

/-- An anchor key must not appear in another list of the same body. -/
def checkAnchorKeys (roots authorities : List Bytes) : List Bytes → Except String Unit
  | [] => .ok ()
  | ak :: aks =>
    if ak ∈ roots then .error "an anchor key must not also appear in the root list"
    else if ak ∈ authorities then
      .error "an anchor key must not also appear in the authority list"
    else checkAnchorKeys roots authorities aks

def validateAnchorKeys (anchorKeys roots authorities : List Bytes) : Except String Unit :=
  if MAX_SIGNERS.toNat < authorities.length + anchorKeys.length then
    .error s!"{authorities.length} authorities plus {anchorKeys.length} anchor keys exceeds the {MAX_SIGNERS}-signer limit"
  else checkAnchorKeys roots authorities anchorKeys

def checkAuthorities (what : String) (authorities : List Bytes) (q : UInt32) : Except String Unit :=
  if authorities.isEmpty then .error s!"{what} with no authorities"
  else if q = 0 ∨ authorities.length < q.toNat then
    .error s!"quorum {q} is unreachable with {authorities.length} authorities"
  else .ok ()

def readGenesis (e : Entry) : Except Error Genesis := do
  let g ← parseGenesis e.body
  let checks : Except String Unit := do
    if g.roots.isEmpty then .error "genesis with no roots" else
    if g.k = 0 ∨ g.roots.length < g.k.toNat then
      .error s!"root threshold {g.k} is unreachable with {g.roots.length} roots" else
    checkAuthorities "genesis" g.authorities g.q
    validateAnchorKeys g.anchorKeys g.roots g.authorities
  checks.mapError (.broken e.seq)
  return g

def apply (E : Externals) (st : State) (e : Entry) (genesis : Option Genesis) :
    Except String State :=
  match e.op with
  | .genesis => do
    let g ← okOr "genesis body missing" genesis
    return { st with zone := g.zone, authorities := g.authorities, q := g.q,
                     anchorKeys := g.anchorKeys }
  | .authorityList => do
    let a ← (parseAuthorityList e.body).mapError (Error.text E)
    checkAuthorities "authority-list" a.authorities a.q
    validateAnchorKeys a.anchorKeys [] a.authorities
    return { st with authorities := a.authorities, q := a.q, anchorKeys := a.anchorKeys }
  | .nodeSign => do
    let n ← (parseNodeSign e.body).mapError (Error.text E)
    if n.expiry ≠ 0 ∧ n.expiry ≤ n.notBefore then
      .error s!"node-sign for {E.debug n.handle} expires before it begins" else
    -- a re-signature supersedes an earlier revocation
    return { st with
      revoked := Function.update st.revoked n.handle none
      covered := Function.update st.covered n.handle
        (some ⟨n.handle, n.identityKey, n.kemPublicKey, n.notBefore, n.expiry⟩) }
  | .nodeRevoke => do
    let r ← (parseNodeRevoke e.body).mapError (Error.text E)
    return { st with revoked := Function.update st.revoked r.handle (some r.effective) }
  | .quorumChange => do
    let q ← (parseQuorumChange e.body).mapError (Error.text E)
    if q = 0 ∨ st.authorities.length < q.toNat then
      .error s!"quorum {q} is unreachable with {st.authorities.length} authorities" else
    return { st with q }
  | .anchor => do
    let a ← (parseAnchor e.body).mapError (Error.text E)
    match st.anchor with
    | some prev =>
      if a.auditSeq ≤ prev.auditSeq then
        .error s!"anchor audit_seq {a.auditSeq} does not advance past the previous anchor's {prev.auditSeq}"
      else return { st with anchor := some a }
    | none => return { st with anchor := some a }
  | .disable => do
    let reason ← (parseDisable e.body).mapError (Error.text E)
    return { st with disabledReason := reason, disabled := true }

/-! ### The walk -/

def checkPosition (expectSeq : UInt64) (lastTime : ℤ) (e : Entry) : Except Error Unit :=
  if e.seq ≠ expectSeq then .error (.broken e.seq s!"expected seq {expectSeq}, found {e.seq}")
  else if e.time < lastTime then .error (.broken e.seq "entry moves time backwards")
  else if decide (e.seq = 1) ≠ decide (e.op = .genesis) then
    .error (.broken e.seq "genesis must be the first entry and only the first")
  else .ok ()

theorem checkPosition_eq_ok {expectSeq : UInt64} {lastTime : ℤ} {e : Entry} :
    checkPosition expectSeq lastTime e = .ok () ↔
      e.seq = expectSeq ∧ lastTime ≤ e.time ∧ (e.seq = 1 ↔ e.op = .genesis) := by
  rw [checkPosition, guard_eq_ok, guard_eq_ok, guard_eq_ok, not_not, not_not, not_lt, decide_eq_decide]
  exact and_congr_right fun _ => and_congr_right fun _ => and_iff_left rfl

def genesisOf (e : Entry) : Except Error (Option Genesis) :=
  if e.op = .genesis then (readGenesis e).map some else .ok none

def installRoots (st : State) : Option Genesis → State
  | some g => { st with roots := g.roots, k := g.k }
  | none => st

/-- The key list a tier's signatures index into, and how many it takes. -/
def State.signers (st : State) : Tier → List Bytes × UInt32
  | .root => (st.roots, st.k)
  | .authority => (st.authorities, st.q)

/-- The signatures of an entry.  One authority, or one anchor key, is enough to anchor. -/
def verifySigners (E : Externals) (st : State) (e : Entry) (h : Bytes) : Except String Unit :=
  let tier := e.op.tier
  let (keys, threshold) := st.signers tier
  if e.op = .anchor then verifySignatures E e h tier keys (some st.anchorKeys) 1
  else verifySignatures E e h tier keys none threshold

/-- One entry of the walk, given the hash of its predecessor. -/
def verifyEntry (E : Externals) (expectSeq : UInt64) (st : State) (prev : Bytes) (e : Entry) :
    Except Error (State × Bytes) := do
  checkPosition expectSeq st.lastTime e
  let h := chainHash E prev e.seq e.time e.op e.body
  let genesis ← genesisOf e
  let st := installRoots st genesis
  (verifySigners E st e h).mapError (.broken e.seq)
  let st ← (apply E st e genesis).mapError (.broken e.seq)
  return ({ st with lastTime := e.time, headSeq := e.seq, head := h }, h)

theorem verifyEntry_eq_ok {E : Externals} {expectSeq : UInt64} {st : State} {prev : Bytes} {e : Entry}
    {r : State × Bytes} : verifyEntry E expectSeq st prev e = .ok r ↔
      checkPosition expectSeq st.lastTime e = .ok () ∧ ∃ genesis st', genesisOf e = .ok genesis
      ∧ verifySigners E (installRoots st genesis) e (chainHash E prev e.seq e.time e.op e.body) = .ok ()
      ∧ apply E (installRoots st genesis) e genesis = .ok st' ∧ r = ({ st' with
          lastTime := e.time, headSeq := e.seq, head := chainHash E prev e.seq e.time e.op e.body },
          chainHash E prev e.seq e.time e.op e.body) := by
  constructor
  · intro hv
    obtain ⟨⟨⟩, hpos, hv⟩ := bind_eq_ok.mp hv
    obtain ⟨genesis, hgenesis, hv⟩ := bind_eq_ok.mp hv
    obtain ⟨⟨⟩, hsigned, hv⟩ := bind_eq_ok.mp hv
    obtain ⟨st', happly, hv⟩ := bind_eq_ok.mp hv
    exact ⟨hpos, genesis, st', hgenesis, mapError_eq_ok.mp hsigned, mapError_eq_ok.mp happly,
      (Except.ok.inj hv).symm⟩
  · rintro ⟨hpos, genesis, st', hgenesis, hsigned, happly, hr⟩
    refine bind_eq_ok.mpr ⟨(), hpos, bind_eq_ok.mpr ⟨genesis, hgenesis, bind_eq_ok.mpr
      ⟨(), mapError_eq_ok.mpr hsigned, bind_eq_ok.mpr ⟨st', mapError_eq_ok.mpr happly, ?_⟩⟩⟩⟩
    rw [hr]
    rfl

def expectedSeq (i : ℕ) : UInt64 := UInt64.ofNat (min (i + 1) (2 ^ 64 - 1))

def verifyFrom (E : Externals) : ℕ → State → Bytes → List Entry → Except Error State
  | _, st, _, [] => .ok st
  | i, st, prev, e :: es => do
    let (st, h) ← verifyEntry E (expectedSeq i) st prev e
    verifyFrom E (i + 1) st h es

def verifyLog (E : Externals) (entries : List Entry) : Except Error State :=
  if entries.isEmpty then .error (.broken 0 "empty log")
  else verifyFrom E 0 State.default [] entries

/-! ### Runs of the walk -/

theorem expectedSeq_toNat {i : ℕ} (h : i + 1 < 2 ^ 64) : (expectedSeq i).toNat = i + 1 := by
  rw [expectedSeq, UInt64.toNat_ofNat_of_lt' (show min (i + 1) (2 ^ 64 - 1) < 2 ^ 64 by omega)]
  omega

/-- The walk over the beginning of a log, where nothing yet is no error. -/
def stateAfter (E : Externals) (entries : List Entry) : Except Error State :=
  verifyFrom E 0 State.default [] entries

section

variable {E : Externals} {st st' : State} {e : Entry} {entries : List Entry}

theorem verifyEntry_head {expectSeq : UInt64} {prev h : Bytes}
    (hv : verifyEntry E expectSeq st prev e = .ok (st', h)) : st'.head = h := by
  obtain ⟨-, genesis, st₁, -, -, -, hr⟩ := verifyEntry_eq_ok.mp hv
  rw [(Prod.mk.inj hr).1, (Prod.mk.inj hr).2]

theorem verifyFrom_append (i : ℕ) (st : State) (entries rest : List Entry) :
    verifyFrom E i st st.head (entries ++ rest) = verifyFrom E i st st.head entries >>= fun st =>
          verifyFrom E (i + entries.length) st st.head rest := by
  induction entries generalizing i st with
  | nil => rfl
  | cons e entries ih =>
    rw [List.cons_append, verifyFrom, verifyFrom, bind_assoc]
    cases hv : verifyEntry E (expectedSeq i) st st.head e with
    | error err => rfl
    | ok r =>
      -- the hash handed on is the head of the state handed on
      obtain ⟨st₁, h⟩ := r
      obtain rfl : st₁.head = h := verifyEntry_head hv
      show verifyFrom E (i + 1) st₁ st₁.head (entries ++ rest)
        = verifyFrom E (i + 1) st₁ st₁.head entries >>= _
      rw [ih, List.length_cons, Nat.add_right_comm, Nat.add_assoc]

theorem stateAfter_append (rest : List Entry) : stateAfter E (entries ++ rest)
      = stateAfter E entries >>= fun st => verifyFrom E entries.length st st.head rest := by
  have happend := verifyFrom_append (E := E) 0 State.default entries rest
  rw [Nat.zero_add] at happend
  exact happend

theorem stateAfter_concat : stateAfter E (entries ++ [e]) = .ok st' ↔ ∃ st, stateAfter E entries = .ok st
      ∧ verifyEntry E (expectedSeq entries.length) st st.head e = .ok (st', st'.head) := by
  rw [stateAfter_append, bind_eq_ok]
  refine exists_congr fun st => and_congr_right fun _ => ?_
  show (verifyEntry E (expectedSeq entries.length) st st.head e >>= fun r => .ok r.1) = _ ↔ _
  rw [bind_eq_ok]
  constructor
  · intro hv
    obtain ⟨⟨st₁, h⟩, hv, hst⟩ := hv
    obtain rfl : st₁ = st' := Except.ok.inj hst
    rw [hv, verifyEntry_head hv]
  · intro hv
    exact ⟨_, hv, rfl⟩

theorem stateAfter_induction {Inv : List Entry → State → Prop} (hnil : Inv [] State.default)
    (hstep : ∀ entries st e st', Inv entries st →
      verifyEntry E (expectedSeq entries.length) st st.head e = .ok (st', st'.head) →
      Inv (entries ++ [e]) st') (hv : stateAfter E entries = .ok st) : Inv entries st := by
  induction entries using List.reverseRecOn generalizing st with
  | nil =>
    rw [← Except.ok.inj hv]
    exact hnil
  | append_singleton entries e ih =>
    obtain ⟨st₀, hv₀, he⟩ := stateAfter_concat.mp hv
    exact hstep entries st₀ e st (ih hv₀) he

theorem verifyLog_eq_ok : verifyLog E entries = .ok st ↔ entries ≠ [] ∧ stateAfter E entries = .ok st := by
  rw [verifyLog, guard_eq_ok, List.isEmpty_iff]
  rfl

theorem stateAfter_of_isPrefix {p : List Entry} (hp : p <+: entries)
    (hv : stateAfter E entries = .ok st) : ∃ st₀, stateAfter E p = .ok st₀ := by
  obtain ⟨rest, rfl⟩ := hp
  rw [stateAfter_append] at hv
  obtain ⟨st₀, hv₀, -⟩ := bind_eq_ok.mp hv
  exact ⟨st₀, hv₀⟩

end

end Karst.Bedrock
