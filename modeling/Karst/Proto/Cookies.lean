import Karst.Proto.Reassembly

/-!
# Stateless cookies

The rest of `karst-proto/src/dos.rs`: a responder under load answers a fragment with a cookie that
only a sender who can receive at its address will hold, computed from a rotating secret and the
source address alone.
-/

namespace Karst.Proto

open Crypto

def COOKIE_LEN : ℕ := 24
def COOKIE_REPLY_LEN : ℕ := 64

def mac2Key (P : Primitives) (cookie : Bytes) : Bytes := P.sha512 (ascii "Karst mac2 v1" ++ cookie)

structure CookieSecret where
  current : Vector UInt8 32
  previous : Option (Vector UInt8 32)
  rotatedAtMs : ℕ
  rotationMs : ℕ

namespace CookieSecret

def new (secret : Vector UInt8 32) (nowMs rotationMs : ℕ) : CookieSecret :=
  ⟨secret, none, nowMs, rotationMs⟩

def needsRotation (c : CookieSecret) (nowMs : ℕ) : Bool :=
  decide (c.rotationMs ≤ nowMs - c.rotatedAtMs)

def rotate (c : CookieSecret) (secret : Vector UInt8 32) (nowMs : ℕ) : CookieSecret :=
  { c with previous := some c.current, current := secret, rotatedAtMs := nowMs }

def compute (P : Primitives) (secret : Vector UInt8 32) (source : SourceKey) : Bytes :=
  (P.hmacSha512 secret.toList source.toList).take COOKIE_LEN

def issue (P : Primitives) (c : CookieSecret) (source : SourceKey) : Bytes :=
  compute P c.current source

def candidates (P : Primitives) (c : CookieSecret) (source : SourceKey) : List Bytes :=
  compute P c.current source :: (c.previous.map fun s => compute P s source).toList

end CookieSecret

def cookieKey (P : Primitives) (responderStaticPk : Bytes) : Bytes :=
  (P.sha512 (ascii "Karst cookie-reply v1" ++ responderStaticPk)).take 32

def buildCookieReply (P : Primitives) (responderStaticPk : Bytes) (receiverIndex : UInt32)
    (cookie nonce : Bytes) : Option Bytes := do
  let aad := leBytes 4 receiverIndex.toNat
  let ct ← P.cipherSeal (cookieKey P responderStaticPk) nonce aad cookie
  if ct.length ≠ COOKIE_LEN + AEAD_TAG then none
  else some ([0x03] ++ [0, 0, 0] ++ aad ++ nonce ++ [0, 0, 0, 0] ++ ct)

def openCookieReply (P : Primitives) (responderStaticPk body : Bytes) : Option (UInt32 × Bytes) :=
  if body.length ≠ COOKIE_REPLY_LEN ∨ body.head? ≠ some 0x03 then none
  else do
    let aad := (body.drop 4).take 4
    let cookie ← P.cipherOpen (cookieKey P responderStaticPk) ((body.drop 8).take 12) aad (body.drop 24)
    if cookie.length ≠ COOKIE_LEN then none else some (UInt32.ofNat (leValue aad), cookie)

end Karst.Proto
