import Karst.Net.Addresses

/-!
# Compliance permits at the enforcing node

`PermitSnapshot` of `karst-control-client/src/compliance.rs`: the gates a node was sent, each for a
set of destinations, a protocol and a range of ports, with the sources that satisfy it and until
when.  A snapshot is consulted at readings of a clock; one that is out of order or past the expiry
makes it invalid for good.
-/

namespace Karst.Datapath

open Net

def handleBytes (handle : Bytes) : Option Bytes :=
  (base64Decode handle).filter fun raw => raw.length == 32

namespace Compliance

def validHandle (value : Bytes) : Bool :=
  (handleBytes value).any fun raw => base64Encode raw == value

/-- An IPv6 address that stands for an IPv4 one. -/
def mapped : IpAddr → Bool
  | .v4 _ => false
  | .v6 a => a.toNat / 2 ^ 32 == 0xFFFF

structure Cidr where
  address : IpAddr
  bits : ℕ

def Cidr.contains (c : Cidr) (address : IpAddr) : Bool :=
  match c.address, address with
  | .v4 _, .v4 _ => decide (c.bits ≤ 32) && decide (mask c.address c.bits = mask address c.bits)
  | .v6 _, .v6 _ => decide (c.bits ≤ 128) && decide (mask c.address c.bits = mask address c.bits)
  | _, _ => false

inductive Protocol where
  | tcp
  | udp

def Protocol.wire : Protocol → ℕ
  | .tcp => 1
  | .udp => 2

structure Gate where
  destinations : List Cidr
  protocol : ℕ
  first : ℕ
  last : ℕ
  /-- Until when each source satisfies the gate. -/
  sources : AList fun _ : Bytes => ℕ

def Gate.covers (g : Gate) (destination : IpAddr) (protocol : Protocol) (port : UInt16) : Bool :=
  (g.protocol == 3 || g.protocol == protocol.wire) && decide (g.first ≤ port.toNat)
    && decide (port.toNat ≤ g.last) && g.destinations.any (·.contains destination)

def gatesSatisfied (gates : List Gate) (source : Bytes) (destination : IpAddr)
    (protocol : Protocol) (port : UInt16) (now : ℕ) : Bool :=
  if !validHandle source || mapped destination then false
  else gates.all fun g =>
    !g.covers destination protocol port || (g.sources.lookup source).any fun deadline => now < deadline

structure PermitSnapshot where
  handle : Bytes
  ingress : List Gate
  egress : List Gate
  expires : ℕ
  lastTime : ℕ
  invalid : Bool

namespace PermitSnapshot

def clockValid (s : PermitSnapshot) (now : ℕ) : PermitSnapshot × Bool :=
  let invalid := s.invalid || decide (now < s.lastTime) || decide (s.expires ≤ now)
  ({ s with invalid, lastTime := now }, !invalid)

def ingressSatisfied (s : PermitSnapshot) (source : Bytes) (destination : IpAddr)
    (protocol : Protocol) (port : UInt16) (now : ℕ) : PermitSnapshot × Bool :=
  let (s, valid) := s.clockValid now
  (s, valid && gatesSatisfied s.ingress source destination protocol port now)

def egressSatisfied (s : PermitSnapshot) (destination : IpAddr) (protocol : Protocol)
    (port : UInt16) (now : ℕ) : PermitSnapshot × Bool :=
  let (s, valid) := s.clockValid now
  (s, valid && gatesSatisfied s.egress s.handle destination protocol port now)

/-! ### Questions over time -/

/-- A question to a snapshot: inbound if it names a source, outbound otherwise. -/
structure Query where
  source : Option Bytes
  destination : IpAddr
  protocol : Protocol
  port : UInt16
  now : ℕ

def ask (s : PermitSnapshot) (q : Query) : PermitSnapshot × Bool :=
  match q.source with
  | some source => s.ingressSatisfied source q.destination q.protocol q.port q.now
  | none => s.egressSatisfied q.destination q.protocol q.port q.now

def gatesOpen (s : PermitSnapshot) (q : Query) : Bool :=
  gatesSatisfied (if q.source.isSome then s.ingress else s.egress) (q.source.getD s.handle)
    q.destination q.protocol q.port q.now

theorem ask_eq (s : PermitSnapshot) (q : Query) :
    s.ask q = ((s.clockValid q.now).1, (s.clockValid q.now).2 && s.gatesOpen q) := by
  rcases q with ⟨_ | source, _, _, _, _⟩ <;> rfl

theorem clockValid_invalid (s : PermitSnapshot) (now : ℕ) : (s.clockValid now).1.invalid = false
    ↔ s.invalid = false ∧ s.lastTime ≤ now ∧ now < s.expires := by
  simp [clockValid, and_assoc]

/-- **A snapshot fails closed.**  It says yes exactly if over all questions so far the clock has neither
run back nor reached the expiry, and the gates are satisfied now. -/
theorem asked_iff (s : PermitSnapshot) (qs : List Query) (q : Query) :
    ((qs.foldl (fun s q => (s.ask q).1) s).ask q).2 = true ↔ s.invalid = false
      ∧ (s.lastTime :: (qs ++ [q]).map Query.now).IsChain (· ≤ ·)
      ∧ (∀ p ∈ qs ++ [q], p.now < s.expires) ∧ s.gatesOpen q = true := by
  induction qs generalizing s with
  | nil => simp [ask_eq, clockValid, and_assoc]
  | cons p qs ih =>
    rw [List.foldl_cons, ih, ask_eq, clockValid_invalid]
    -- The gates and the expiry are the same after a question, and its time is the last one.
    show _ ∧ (p.now :: (qs ++ [q]).map Query.now).IsChain (· ≤ ·)
      ∧ (∀ p ∈ qs ++ [q], p.now < s.expires) ∧ s.gatesOpen q = true ↔ _
    simp only [List.cons_append, List.map_cons, List.isChain_cons_cons, List.forall_mem_cons]
    tauto

end PermitSnapshot

end Compliance

end Karst.Datapath
