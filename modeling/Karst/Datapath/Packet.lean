import Karst.Net.Addresses

/-!
# Inner packets

`karst-tun/src/ip.rs`: the addresses and transport ports of an inner packet.  It reads bytes a peer
wrote, so every read may fail, and the chain of IPv6 extension headers is followed for eight hops.
-/

namespace Karst.Datapath

open Net

namespace Ip

/-! ### Addresses -/

inductive Version where
  | v4
  | v6

structure Addresses where
  version : Version
  source : IpAddr
  destination : IpAddr

def version (packet : Bytes) : Option Version :=
  match packet with
  | [] => none
  | b :: _ =>
    if b.toNat / 16 = 4 then some .v4 else if b.toNat / 16 = 6 then some .v6 else none

def chunk (n : ℕ) (packet : Bytes) (start : ℕ) : Option Bytes :=
  let rest := packet.drop start
  if n ≤ rest.length then some (rest.take n) else none

def read4 (packet : Bytes) (start : ℕ) : Option IpAddr :=
  (chunk 4 packet start).map fun b => .v4 (BitVec.ofNat 32 (beValue b))

def read16 (packet : Bytes) (start : ℕ) : Option IpAddr :=
  (chunk 16 packet start).map fun b => .v6 (BitVec.ofNat 128 (beValue b))

def headerLength (packet : Bytes) : ℕ := (packet.headD 0).toNat % 16 * 4

def addresses (packet : Bytes) : Option Addresses := do
  match ← version packet with
  | .v4 =>
    if headerLength packet < 20 ∨ packet.length < 20 then none
    else do
      let source ← read4 packet 12
      let destination ← read4 packet 16
      return ⟨.v4, source, destination⟩
  | .v6 =>
    if packet.length < 40 then none
    else do
      let source ← read16 packet 8
      let destination ← read16 packet 24
      return ⟨.v6, source, destination⟩

def destination (packet : Bytes) : Option IpAddr := (addresses packet).map Addresses.destination

/-! ### Ports -/

namespace Proto

def HOPOPT : UInt8 := 0
def TCP : UInt8 := 6
def UDP : UInt8 := 17
def DCCP : UInt8 := 33
def IPV6_ROUTING : UInt8 := 43
def IPV6_FRAGMENT : UInt8 := 44
def ESP : UInt8 := 50
def AH : UInt8 := 51
def IPV6_NONXT : UInt8 := 59
def IPV6_DSTOPTS : UInt8 := 60
def SCTP : UInt8 := 132
def MOBILITY : UInt8 := 135
def UDPLITE : UInt8 := 136

end Proto

/-- A packet's ports; zero for a protocol that has none. -/
structure Ports where
  protocol : UInt8
  source : UInt16
  destination : UInt16
  deriving DecidableEq

def readU16 (packet : Bytes) (start : ℕ) : Option UInt16 :=
  (chunk 2 packet start).map fun b => UInt16.ofNat (beValue b)

def readPorts (payload : Bytes) (protocol : UInt8) : Option Ports :=
  if protocol ∈ [Proto.TCP, Proto.UDP, Proto.SCTP, Proto.DCCP, Proto.UDPLITE] then do
    let source ← readU16 payload 0
    let destination ← readU16 payload 2
    return ⟨protocol, source, destination⟩
  else some ⟨protocol, 0, 0⟩

/-- What an extension header says: how far to go on, or the answer. -/
inductive Hop where
  | past (advance : ℕ)
  | done (ports : Option Ports)

def hop (next : UInt8) (rest : Bytes) : Hop :=
  if next ∈ [Proto.HOPOPT, Proto.IPV6_ROUTING, Proto.IPV6_DSTOPTS, Proto.MOBILITY] then
    match rest[1]? with
    | some len => .past ((len.toNat + 1) * 8)
    | none => .done none
  else if next = Proto.IPV6_FRAGMENT then
    match readU16 rest 2 with
    -- only the first fragment has a transport header
    | some off => if off &&& 0xFFF8 ≠ 0 then .done none else .past 8
    | none => .done none
  else if next = Proto.AH then
    match rest[1]? with
    | some len => .past ((len.toNat + 2) * 4)
    | none => .done none
  else if next = Proto.ESP then .done none
  else if next = Proto.IPV6_NONXT then .done (some ⟨Proto.IPV6_NONXT, 0, 0⟩)
  else .done (readPorts rest next)

/-- The chain of extension headers, for a number of hops. -/
def walk : ℕ → UInt8 → Bytes → Option Ports
  | 0, _, _ => none
  | hops + 1, next, rest =>
    match hop next rest with
    | .done ports => ports
    | .past advance =>
      match rest with
      | [] => none
      | next' :: _ => if advance ≤ rest.length then walk hops next' (rest.drop advance) else none

def ports (packet : Bytes) : Option Ports := do
  match ← version packet with
  | .v4 =>
    let ihl := headerLength packet
    if ihl < 20 ∨ packet.length < ihl then none
    else do
      let frag ← readU16 packet 6
      if frag &&& 0x1FFF ≠ 0 then none
      else do
        let protocol ← packet[9]?
        readPorts (packet.drop ihl) protocol
  | .v6 =>
    if packet.length < 40 then none
    else do
      let next ← packet[6]?
      walk 8 next (packet.drop 40)

end Ip

end Karst.Datapath
