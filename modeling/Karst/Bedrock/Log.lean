import Karst.Foundations.Encodings
import Karst.Foundations.Readers

/-!
# The Bedrock log

Entries, the hash chain and the entry bodies (`karst-bedrock/src/log.rs`, `codec.rs`).  A cursor is
what it has left to read; every read that does not fit is refused.

Strings are kept as their UTF-8 bytes.  Digests and signature checks are the libraries'
(`Externals`).
-/

namespace Karst.Bedrock

/-- What the crate takes from outside the repository: SHA-2, and ML-DSA verification under the
context string of each tier.  Public key, message, signature. -/
structure Externals where
  sha256 : Bytes → Bytes
  sha512 : Bytes → Bytes
  verifyRoot : Bytes → Bytes → Bytes → Bool
  verifyAuthority : Bytes → Bytes → Bytes → Bool
  verifyAnchorKey : Bytes → Bytes → Bytes → Bool
  /-- A string as the `{:?}` of a message shows it. -/
  debug : Bytes → String

inductive Error where
  | malformed
  | unknownOp (op : Bytes)
  | broken (seq : UInt64) (why : String)

/-! ### The cursor -/

abbrev Cursor := Reader Error

namespace Cursor

def take (n : ℕ) : Cursor Bytes := Reader.take .malformed n

def u32 : Cursor UInt32 := do
  let b ← take 4
  return UInt32.ofNat (beValue b)

def u64 : Cursor UInt64 := do
  let b ← take 8
  return UInt64.ofNat (beValue b)

def lp : Cursor Bytes := do
  let n ← u32
  take n.toNat

def lpStr : Cursor Bytes := do
  let b ← lp
  if validUtf8 b then return b else throw .malformed

def keyList (size : ℕ) : ℕ → Cursor (List Bytes)
  | 0 => return []
  | n + 1 => do
    let k ← lp
    if k.length ≠ size then throw .malformed
    let ks ← keyList size n
    return k :: ks

def keys (size : ℕ) (max : UInt32) : Cursor (List Bytes) := do
  let n ← u32
  if max < n then throw .malformed
  keyList size n.toNat

def isAtEnd : Cursor Bool := do
  let rest ← get
  return rest.isEmpty

def finish : Cursor Unit := do
  if ← isAtEnd then return () else throw .malformed

/-- The optional trailing anchor-key block: absence means no keys, and a present block of no keys is
refused. -/
def optionalKeys (size : ℕ) (max : UInt32) : Cursor (List Bytes) := do
  if ← isAtEnd then return []
  let n ← u32
  if n = 0 then throw .malformed
  if max < n then throw .malformed
  keyList size n.toNat

end Cursor

def putLp (field : Bytes) : Bytes := beBytes 4 (min field.length (2 ^ 32 - 1)) ++ field

def toBits64 (t : ℤ) : ℕ := (t % 2 ^ 64).toNat

def ofBits64 (v : UInt64) : ℤ := if v.toNat < 2 ^ 63 then v.toNat else v.toNat - 2 ^ 64

/-! ### Entries -/

def MAX_SIGNERS : UInt32 := 64
def MAX_LOG_ENTRIES : UInt32 := 1048576
def ROOT_PUBLIC_KEY : ℕ := 2592
def AUTHORITY_PUBLIC_KEY : ℕ := 2592
def ANCHOR_PUBLIC_KEY : ℕ := 2592
def NODE_IDENTITY_KEY : ℕ := 2592
def KEM_PUBLIC_KEY : ℕ := 1568

inductive Op where
  | genesis
  | authorityList
  | nodeSign
  | nodeRevoke
  | quorumChange
  | anchor
  | disable
  deriving DecidableEq

inductive Tier where
  | root
  | authority
  deriving DecidableEq

namespace Op

def asStr : Op → String
  | .genesis => "genesis"
  | .authorityList => "authority-list"
  | .nodeSign => "node-sign"
  | .nodeRevoke => "node-revoke"
  | .quorumChange => "quorum-change"
  | .anchor => "anchor"
  | .disable => "disable"

def parse (s : Bytes) : Option Op :=
  [genesis, authorityList, nodeSign, nodeRevoke, quorumChange, anchor, disable].find? fun op =>
    s = ascii op.asStr

def tier : Op → Tier
  | .genesis | .authorityList | .disable => .root
  | .nodeSign | .nodeRevoke | .quorumChange | .anchor => .authority

end Op

structure Signature where
  signerIndex : UInt32
  sig : Bytes
  deriving DecidableEq

structure Entry where
  seq : UInt64
  time : ℤ
  op : Op
  body : Bytes
  sigs : List Signature

def CHAIN_LABEL : Bytes := ascii "karst-bedrock-v1"

def chainHash (E : Externals) (prev : Bytes) (seq : UInt64) (time : ℤ) (op : Op) (body : Bytes) :
    Bytes :=
  E.sha512 (CHAIN_LABEL ++ (putLp prev ++ putLp (beBytes 8 seq.toNat)
    ++ putLp (beBytes 8 (toBits64 time)) ++ putLp (ascii op.asStr) ++ putLp body))

def Signature.encode (s : Signature) : Bytes := beBytes 4 s.signerIndex.toNat ++ putLp s.sig

def Entry.encode (e : Entry) : Bytes :=
  putLp (beBytes 8 e.seq.toNat) ++ putLp (beBytes 8 (toBits64 e.time)) ++ putLp (ascii e.op.asStr)
    ++ putLp e.body ++ beBytes 4 (min e.sigs.length (2 ^ 32 - 1)) ++ (e.sigs.map Signature.encode).flatten

def encodeLog (entries : List Entry) : Bytes :=
  beBytes 4 (min entries.length (2 ^ 32 - 1)) ++ (entries.map fun e => putLp e.encode).flatten

open Cursor in
def Signature.read : Cursor Signature := do
  let signerIndex ← u32
  let sig ← lp
  return { signerIndex, sig }

/-- An unknown operation fails here, with its spelling. -/
def Op.read (opRaw : Bytes) : Cursor Op :=
  match Op.parse opRaw with
  | some op => return op
  | none => throw (.unknownOp opRaw)

open Cursor in
def Entry.decode : Bytes → Except Error Entry := Reader.parse do
  let seqRaw ← lp
  let timeRaw ← lp
  let opRaw ← lpStr
  let body ← lp
  if seqRaw.length ≠ 8 then throw .malformed
  if timeRaw.length ≠ 8 then throw .malformed
  let op ← Op.read opRaw
  let n ← u32
  if MAX_SIGNERS < n then throw .malformed
  let sigs ← Reader.many Signature.read n.toNat
  finish
  return { seq := UInt64.ofNat (beValue seqRaw)
           time := ofBits64 (UInt64.ofNat (beValue timeRaw)), op, body, sigs }

open Cursor in
def Entry.read : Cursor Entry := do
  let raw ← lp
  liftM (Entry.decode raw)

open Cursor in
def decodeLog : Bytes → Except Error (List Entry) := Reader.parse do
  let n ← u32
  if MAX_LOG_ENTRIES < n then throw .malformed
  let entries ← Reader.many Entry.read n.toNat
  finish
  return entries

/-! ### Bodies -/

structure Genesis where
  zone : Bytes
  roots : List Bytes
  k : UInt32
  authorities : List Bytes
  q : UInt32
  anchorKeys : List Bytes

structure NodeSign where
  handle : Bytes
  /-- The control-channel key the handle derives from. -/
  identityKey : Bytes
  kemPublicKey : Bytes
  notBefore : ℤ
  expiry : ℤ

structure NodeRevoke where
  handle : Bytes
  reason : Bytes
  effective : ℤ

structure AuthorityList where
  authorities : List Bytes
  q : UInt32
  anchorKeys : List Bytes

structure Anchor where
  auditHead : Bytes
  auditSeq : UInt64

def nodeHandle (E : Externals) (identityKey : Bytes) : Bytes :=
  base64Encode (E.sha256 (ascii "karst-node-handle-v1" ++ identityKey))

open Cursor

def readTime : Cursor ℤ := do
  let v ← u64
  return ofBits64 v

def parseGenesis : Bytes → Except Error Genesis := Reader.parse do
  let zone ← lpStr
  let roots ← keys ROOT_PUBLIC_KEY MAX_SIGNERS
  let k ← u32
  let authorities ← keys AUTHORITY_PUBLIC_KEY MAX_SIGNERS
  let q ← u32
  let anchorKeys ← optionalKeys ANCHOR_PUBLIC_KEY MAX_SIGNERS
  finish
  return { zone, roots, k, authorities, q, anchorKeys }

def parseAuthorityList : Bytes → Except Error AuthorityList := Reader.parse do
  let authorities ← keys AUTHORITY_PUBLIC_KEY MAX_SIGNERS
  let q ← u32
  let anchorKeys ← optionalKeys ANCHOR_PUBLIC_KEY MAX_SIGNERS
  finish
  return { authorities, q, anchorKeys }

def parseNodeSign : Bytes → Except Error NodeSign := Reader.parse do
  let handle ← lpStr
  let identityKey ← lp
  let kemPublicKey ← lp
  let notBefore ← readTime
  let expiry ← readTime
  finish
  if identityKey.length ≠ NODE_IDENTITY_KEY ∨ kemPublicKey.length ≠ KEM_PUBLIC_KEY
      ∨ handle.isEmpty then throw .malformed
  return { handle, identityKey, kemPublicKey, notBefore, expiry }

def parseNodeRevoke : Bytes → Except Error NodeRevoke := Reader.parse do
  let handle ← lpStr
  let reason ← lpStr
  let effective ← readTime
  finish
  if handle.isEmpty then throw .malformed
  return { handle, reason, effective }

def parseQuorumChange : Bytes → Except Error UInt32 := Reader.parse do
  let q ← u32
  finish
  return q

def parseAnchor : Bytes → Except Error Anchor := Reader.parse do
  let auditHead ← lp
  let auditSeq ← u64
  finish
  return { auditHead, auditSeq }

def parseDisable : Bytes → Except Error Bytes := Reader.parse do
  let reason ← lpStr
  finish
  return reason

/-! ### Body builders -/

def putKeys (ks : List Bytes) : Bytes :=
  beBytes 4 (min ks.length (2 ^ 32 - 1)) ++ (ks.map putLp).flatten

def putOptionalKeys (anchorKeys : List Bytes) : Bytes :=
  if anchorKeys.isEmpty then [] else putKeys anchorKeys

def genesisBody (g : Genesis) : Bytes :=
  putLp g.zone ++ putKeys g.roots ++ beBytes 4 g.k.toNat ++ putKeys g.authorities
    ++ beBytes 4 g.q.toNat ++ putOptionalKeys g.anchorKeys

def authorityListBody (a : AuthorityList) : Bytes :=
  putKeys a.authorities ++ beBytes 4 a.q.toNat ++ putOptionalKeys a.anchorKeys

def nodeSignBody (n : NodeSign) : Bytes :=
  putLp n.handle ++ putLp n.identityKey ++ putLp n.kemPublicKey
    ++ beBytes 8 (toBits64 n.notBefore) ++ beBytes 8 (toBits64 n.expiry)

def nodeRevokeBody (r : NodeRevoke) : Bytes :=
  putLp r.handle ++ putLp r.reason ++ beBytes 8 (toBits64 r.effective)

def quorumChangeBody (q : UInt32) : Bytes := beBytes 4 q.toNat

def anchorBody (a : Anchor) : Bytes := putLp a.auditHead ++ beBytes 8 a.auditSeq.toNat

def disableBody (reason : Bytes) : Bytes := putLp reason

end Karst.Bedrock
