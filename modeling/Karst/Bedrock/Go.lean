import Karst.Foundations.StickyReaders
import Karst.Bedrock.Verify

/-!
# The server's Bedrock

`management/internals/karst/bedrock/log.go` and `verify.go`: the log read and verified in Go.  The cursor
keeps its first error and goes on returning zeroes; every parser asks `done` at its end.  An operation is
any string until `VerifyLog` looks it up, and strings are any bytes.

The state is the one of the other implementation, field for field.  `Entry.Hash`, a cache nothing reads,
is left out.
-/

namespace Karst.Bedrock.Go

open StickyReader

structure Externals extends Bedrock.Externals where
  quote : Bytes → String

def ErrMalformed : String := "bedrock: malformed encoding"
def ErrBroken : String := "bedrock: chain does not verify"

/-! ### The cursor -/

abbrev Cursor := StickyReader String

namespace Cursor

def u32 : Cursor UInt32 := read 4 (fun b => UInt32.ofNat (beValue b)) 0

def u64 : Cursor UInt64 := read 8 (fun b => UInt64.ofNat (beValue b)) 0

def i64 : Cursor ℤ := do
  let v ← u64
  return ofBits64 v

def lp : Cursor Bytes := do
  let n ← u32
  if ← failed then return [] else
  read n.toNat id []

end Cursor

open Karst.Bedrock.Go.Cursor

/-- An early return of nothing leaves the loop. -/
def readKeyLoop (size : ℕ) : ℕ → Cursor (List Bytes)
  | 0 => return []
  | n + 1 => do
    let k ← lp
    if ← failed then return [] else
    if k.length ≠ size then do fail; return [] else
    let ks ← readKeyLoop size n
    if ← failed then return [] else
    return k :: ks

def readKeysCounted (n : UInt32) (size : ℕ) : Cursor (List Bytes) :=
  if MAX_SIGNERS < n then do fail; return [] else readKeyLoop size n.toNat

def readKeys (size : ℕ) : Cursor (List Bytes) := do
  let n ← u32
  if ← failed then return [] else
  readKeysCounted n size

/-- The trailing anchor-key block: absence means no keys. -/
def readOptionalAnchorKeys : Cursor (List Bytes) := do
  if ← done then return [] else
  let n ← u32
  if ← failed then return [] else
  if n = 0 then do fail; return [] else
  readKeysCounted n ANCHOR_PUBLIC_KEY

/-! ### Entries and the log -/

structure Entry where
  seq : UInt64
  time : ℤ
  op : Bytes
  body : Bytes
  sigs : List Signature

def readSignatures : ℕ → Cursor (List Signature)
  | 0 => return []
  | n + 1 => do
    let signerIndex ← u32
    let sig ← lp
    if ← failed then throw ErrMalformed else
    let sigs ← readSignatures n
    return { signerIndex, sig } :: sigs

def decodeEntry : Bytes → Except String Entry := run do
  let seqRaw ← lp
  let timeRaw ← lp
  let op ← lp
  let body ← lp
  if ← failed then throw ErrMalformed else
  if seqRaw.length ≠ 8 ∨ timeRaw.length ≠ 8 then
    throw s!"{ErrMalformed}: seq and time are eight bytes" else
  let n ← u32
  if ← failed then throw ErrMalformed else
  if MAX_SIGNERS < n then throw s!"{ErrMalformed}: {n} signatures exceeds the limit" else
  let sigs ← readSignatures n.toNat
  if !(← done) then throw s!"{ErrMalformed}: trailing bytes after entry" else
  return { seq := UInt64.ofNat (beValue seqRaw)
           time := ofBits64 (UInt64.ofNat (beValue timeRaw)), op, body, sigs }

def readEntries (i : ℕ) : ℕ → Cursor (List Entry)
  | 0 => return []
  | n + 1 => do
    let raw ← lp
    if ← failed then throw ErrMalformed else
    let e ← (decodeEntry raw).mapError fun err => s!"entry {i}: {err}"
    let es ← readEntries (i + 1) n
    return e :: es

def decodeLog : Bytes → Except String (List Entry) := run do
  let n ← u32
  if ← failed then throw ErrMalformed else
  if MAX_LOG_ENTRIES < n then throw s!"{ErrMalformed}: {n} entries exceeds the limit" else
  let entries ← readEntries 0 n.toNat
  if !(← done) then throw s!"{ErrMalformed}: trailing bytes after log" else
  return entries

/-! ### Bodies -/

def parseGenesis : Bytes → Except String Genesis := run do
  let zone ← lp
  let roots ← readKeys ROOT_PUBLIC_KEY
  let k ← u32
  let authorities ← readKeys AUTHORITY_PUBLIC_KEY
  let q ← u32
  let anchorKeys ← readOptionalAnchorKeys
  if !(← done) then throw s!"{ErrMalformed}: genesis body" else
  return { zone, roots, k, authorities, q, anchorKeys }

def parseAuthorityList : Bytes → Except String AuthorityList := run do
  let authorities ← readKeys AUTHORITY_PUBLIC_KEY
  let q ← u32
  let anchorKeys ← readOptionalAnchorKeys
  if !(← done) then throw s!"{ErrMalformed}: authority-list body" else
  return { authorities, q, anchorKeys }

def parseNodeSign : Bytes → Except String NodeSign := run do
  let handle ← lp
  let identityKey ← lp
  let kemPublicKey ← lp
  let notBefore ← i64
  let expiry ← i64
  if !(← done) then throw s!"{ErrMalformed}: node-sign body" else
  if identityKey.length ≠ NODE_IDENTITY_KEY then
    throw s!"{ErrMalformed}: identity key is {identityKey.length} bytes, want {NODE_IDENTITY_KEY}" else
  if kemPublicKey.length ≠ KEM_PUBLIC_KEY then
    throw s!"{ErrMalformed}: KEM key is {kemPublicKey.length} bytes, want {KEM_PUBLIC_KEY}" else
  if handle.isEmpty then throw s!"{ErrMalformed}: node-sign with an empty handle" else
  return { handle, identityKey, kemPublicKey, notBefore, expiry }

def parseNodeRevoke : Bytes → Except String NodeRevoke := run do
  let handle ← lp
  let reason ← lp
  let effective ← i64
  if !(← done) then throw s!"{ErrMalformed}: node-revoke body" else
  if handle.isEmpty then throw s!"{ErrMalformed}: node-revoke with an empty handle" else
  return { handle, reason, effective }

def parseQuorumChange : Bytes → Except String UInt32 := run do
  let q ← u32
  if !(← done) then throw s!"{ErrMalformed}: quorum-change body" else
  return q

def parseAnchor : Bytes → Except String Anchor := run do
  let auditHead ← lp
  let auditSeq ← u64
  if !(← done) then throw s!"{ErrMalformed}: anchor body" else
  return { auditHead, auditSeq }

def parseDisable : Bytes → Except String Bytes := run do
  let reason ← lp
  if !(← done) then throw s!"{ErrMalformed}: disable body" else
  return reason

/-! ### The chain -/

/-- A length-prefixed field as it is hashed; the length is truncated. -/
def writeLP (field : Bytes) : Bytes := beBytes 4 (UInt32.ofNat field.length).toNat ++ field

def chainHash (E : Externals) (prev : Bytes) (seq : UInt64) (time : ℤ) (op body : Bytes) : Bytes :=
  E.sha512 (CHAIN_LABEL ++ (writeLP prev ++ writeLP (beBytes 8 seq.toNat)
    ++ writeLP (beBytes 8 (toBits64 time)) ++ writeLP op ++ writeLP body))

def OpGenesis : Bytes := ascii "genesis"
def OpAuthorityList : Bytes := ascii "authority-list"
def OpNodeSign : Bytes := ascii "node-sign"
def OpNodeRevoke : Bytes := ascii "node-revoke"
def OpQuorumChange : Bytes := ascii "quorum-change"
def OpAnchor : Bytes := ascii "anchor"
def OpDisable : Bytes := ascii "disable"

def tierOf (op : Bytes) : Option Tier :=
  if op = OpGenesis ∨ op = OpAuthorityList ∨ op = OpDisable then some .root
  else if op = OpNodeSign ∨ op = OpNodeRevoke ∨ op = OpQuorumChange ∨ op = OpAnchor then
    some .authority
  else none

def checkSignature (E : Externals) (entryHash : Bytes) (tier : Tier) (keys anchorKeys : List Bytes)
    (s : Signature) : Except String Bool :=
  let idx := s.signerIndex.toNat
  match keys[idx]? with
  | some key =>
    .ok (match tier with
      | .root => E.verifyRoot key entryHash s.sig
      | .authority => E.verifyAuthority key entryHash s.sig)
  | none =>
    -- no anchor keys and an empty list of them are the same here
    match anchorKeys[idx - keys.length]? with
    | some key => .ok (E.verifyAnchorKey key entryHash s.sig)
    | none => .error s!"signer index {s.signerIndex} is out of range for {keys.length} keys"

def checkSignatures (E : Externals) (entryHash : Bytes) (tier : Tier) (keys anchorKeys : List Bytes) :
    List UInt32 → List Signature → Except String Unit
  | _, [] => .ok ()
  | seen, s :: sigs => do
    if s.signerIndex ∈ seen then .error s!"signer {s.signerIndex} appears twice" else
    let ok ← checkSignature E entryHash tier keys anchorKeys s
    if ok = false then .error s!"signature from signer {s.signerIndex} does not verify" else
    checkSignatures E entryHash tier keys anchorKeys (s.signerIndex :: seen) sigs

def verifySignatures (E : Externals) (e : Entry) (entryHash : Bytes) (tier : Tier)
    (keys anchorKeys : List Bytes) (threshold : UInt32) : Except String Unit :=
  if threshold = 0 then .error "no threshold established for this tier"
  else if UInt32.ofNat e.sigs.length < threshold then
    .error s!"{e.sigs.length} signatures, need {threshold}"
  else checkSignatures E entryHash tier keys anchorKeys [] e.sigs

def validateAnchorKeys (anchorKeys roots authorities : List Bytes) : Except String Unit :=
  if MAX_SIGNERS.toNat < authorities.length + anchorKeys.length then
    .error s!"{authorities.length} authorities plus {anchorKeys.length} anchor keys exceeds the {MAX_SIGNERS}-signer limit"
  else checkAnchorKeys roots authorities anchorKeys

def validateGenesis (g : Genesis) : Except String Unit :=
  if g.roots.length = 0 then .error "genesis with no roots"
  else if g.k = 0 ∨ g.roots.length < g.k.toNat then
    .error s!"root threshold {g.k} is unreachable with {g.roots.length} roots"
  else if g.authorities.length = 0 then .error "genesis with no authorities"
  else if g.q = 0 ∨ g.authorities.length < g.q.toNat then
    .error s!"quorum {g.q} is unreachable with {g.authorities.length} authorities"
  else validateAnchorKeys g.anchorKeys g.roots g.authorities

def apply (E : Externals) (st : State) (e : Entry) (genesis : Option Genesis) :
    Except String State :=
  if e.op = OpGenesis then
    match genesis with
    | some g => return { st with zone := g.zone, authorities := g.authorities, q := g.q,
                                 anchorKeys := g.anchorKeys }
    -- a nil pointer; `verifyEntry` has read the body
    | none => .error "invalid memory address or nil pointer dereference"
  else if e.op = OpAuthorityList then do
    let a ← parseAuthorityList e.body
    if a.authorities.length = 0 then .error "authority-list with no authorities" else
    if a.q = 0 ∨ a.authorities.length < a.q.toNat then
      .error s!"quorum {a.q} is unreachable with {a.authorities.length} authorities" else
    validateAnchorKeys a.anchorKeys [] a.authorities
    return { st with authorities := a.authorities, q := a.q, anchorKeys := a.anchorKeys }
  else if e.op = OpNodeSign then do
    let n ← parseNodeSign e.body
    if n.expiry ≠ 0 ∧ n.expiry ≤ n.notBefore then
      .error s!"node-sign for {E.quote n.handle} expires before it begins" else
    -- the handle must be the one the identity key derives to
    if nodeHandle E.toExternals n.identityKey ≠ n.handle then
      .error s!"node-sign handle {E.quote n.handle} does not match its identity key (want {E.quote (nodeHandle E.toExternals n.identityKey)})" else
    return { st with
      covered := Function.update st.covered n.handle
        (some ⟨n.handle, n.identityKey, n.kemPublicKey, n.notBefore, n.expiry⟩)
      revoked := Function.update st.revoked n.handle none }
  else if e.op = OpNodeRevoke then do
    let r ← parseNodeRevoke e.body
    return { st with revoked := Function.update st.revoked r.handle (some r.effective) }
  else if e.op = OpQuorumChange then do
    let q ← parseQuorumChange e.body
    if q = 0 ∨ st.authorities.length < q.toNat then
      .error s!"quorum {q} is unreachable with {st.authorities.length} authorities" else
    return { st with q }
  else if e.op = OpAnchor then do
    let a ← parseAnchor e.body
    match st.anchor with
    | some prev =>
      if a.auditSeq ≤ prev.auditSeq then
        .error s!"anchor audit_seq {a.auditSeq} does not advance past the previous anchor's {prev.auditSeq}"
      else return { st with anchor := some a }
    | none => return { st with anchor := some a }
  else if e.op = OpDisable then do
    let reason ← parseDisable e.body
    return { st with disabled := true, disabledReason := reason }
  else return st

def genesisOf (e : Entry) : Except String (Option Genesis) :=
  if e.op = OpGenesis then do
    let g ← (parseGenesis e.body).mapError fun err => s!"{ErrBroken}: entry 1: {err}"
    (validateGenesis g).mapError fun err => s!"{ErrBroken}: entry 1: {err}"
    return some g
  else return none

def verifyEntry (E : Externals) (expectSeq : UInt64) (st : State) (prev : Bytes) (e : Entry) :
    Except String (State × Bytes) := do
  if e.seq ≠ expectSeq then .error s!"{ErrBroken}: expected seq {expectSeq}, found {e.seq}" else
  if e.time < st.lastTime then .error s!"{ErrBroken}: entry {e.seq} moves time backwards" else
  let tier ← okOr s!"{ErrBroken}: entry {e.seq} has unknown op {E.quote e.op}" (tierOf e.op)
  if decide (e.seq = 1) ≠ decide (e.op = OpGenesis) then
    .error s!"{ErrBroken}: entry {e.seq}: genesis must be the first entry and only the first" else
  let h := chainHash E prev e.seq e.time e.op e.body
  let genesis ← genesisOf e
  let st := installRoots st genesis
  let (keys, threshold) := st.signers tier
  (if e.op = OpAnchor then verifySignatures E e h tier keys st.anchorKeys 1
    else verifySignatures E e h tier keys [] threshold).mapError fun err =>
      s!"{ErrBroken}: entry {e.seq}: {err}"
  let st ← (apply E st e genesis).mapError fun err => s!"{ErrBroken}: entry {e.seq}: {err}"
  return ({ st with lastTime := e.time, head := h, headSeq := e.seq }, h)

def verifyFrom (E : Externals) : ℕ → State → Bytes → List Entry → Except String State
  | _, st, _, [] => .ok st
  | i, st, prev, e :: es => do
    let (st, h) ← verifyEntry E (UInt64.ofNat (i + 1)) st prev e
    verifyFrom E (i + 1) st h es

def verifyLog (E : Externals) (entries : List Entry) : Except String State :=
  if entries.isEmpty then .error s!"{ErrBroken}: empty log"
  else verifyFrom E 0 State.default [] entries

def isCovered (st : State) (handle kemPublicKey : Bytes) (t : ℤ) : Bool :=
  match st.covered handle with
  | none => false
  | some c =>
    if c.kemPublicKey ≠ kemPublicKey then false
    else if t < c.notBefore then false
    else if c.expiry ≠ 0 ∧ c.expiry ≤ t then false
    else match st.revoked handle with
      | some eff => !decide (eff ≤ t)
      | none => true

end Karst.Bedrock.Go
