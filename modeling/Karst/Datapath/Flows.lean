import Karst.Foundations.Leases
import Karst.Datapath.PacketFilter

/-!
# Connection tracking

`karstd/src/flow.rs`.  A grant is for one direction, and what makes the reply to a permitted request
permitted is a table of flows: a lease per flow, taken out when a rule permits a packet and renewed by
every packet of the flow.  The same table of leases, with other contents, remembers which flows the
SSH gate has let through.
-/

namespace Karst.Datapath

open Net Option

inductive Direction where
  | inbound
  | outbound
  deriving DecidableEq

def MAX_FLOWS : ℕ := 4096
def IDLE_MS : ℕ := 120000

/-! ### Flows by name -/

structure Key where
  protocol : UInt8
  localAddr : IpAddr
  remote : IpAddr
  localPort : UInt16
  remotePort : UInt16
  deriving DecidableEq

/-- The flow a packet belongs to, if its ports can be read.  Outbound, this node is the source. -/
def Key.of (direction : Direction) (packet : Bytes) : Option Key := do
  let ports ← Ip.ports packet
  let addrs ← Ip.addresses packet
  match direction with
  | .outbound => return ⟨ports.protocol, addrs.source, addrs.destination, ports.source,
      ports.destination⟩
  | .inbound => return ⟨ports.protocol, addrs.destination, addrs.source, ports.destination,
      ports.source⟩

@[ext]
structure FiveTuple where
  protocol : UInt8
  source : IpAddr
  destination : IpAddr
  sourcePort : UInt16
  destinationPort : UInt16

def FiveTuple.reverse (t : FiveTuple) : FiveTuple :=
  ⟨t.protocol, t.destination, t.source, t.destinationPort, t.sourcePort⟩

def fiveTuple (packet : Bytes) : Option FiveTuple := do
  let ports ← Ip.ports packet
  let addrs ← Ip.addresses packet
  return ⟨ports.protocol, addrs.source, addrs.destination, ports.source, ports.destination⟩

def FiveTuple.key (direction : Direction) (t : FiveTuple) : Key :=
  match direction with
  | .outbound => ⟨t.protocol, t.source, t.destination, t.sourcePort, t.destinationPort⟩
  | .inbound => ⟨t.protocol, t.destination, t.source, t.destinationPort, t.sourcePort⟩

theorem Key.of_eq (direction : Direction) (packet : Bytes) :
    Key.of direction packet = (fiveTuple packet).map (FiveTuple.key direction) := by
  unfold Key.of fiveTuple
  cases Ip.ports packet with
  | none => rfl
  | some ports =>
    cases Ip.addresses packet with
    | none => rfl
    | some addrs => cases direction <;> rfl

theorem FiveTuple.eq_of_key {d d' : Direction} {t t' : FiveTuple} (h : t'.key d' = t.key d) :
    t' = if d = d' then t else t.reverse := by
  cases d <;> cases d' <;> simp only [FiveTuple.key, Key.mk.injEq] at h <;>
    simp only [reduceCtorEq, if_true, if_false, FiveTuple.reverse] <;> ext1 <;> simp only [h]

theorem fiveTuple_of_key {d d' : Direction} {p p' : Bytes} {k : Key} (h : Key.of d p = some k)
    (h' : Key.of d' p' = some k) :
    ∃ t, fiveTuple p = some t ∧ fiveTuple p' = some (if d = d' then t else t.reverse) := by
  rw [Key.of_eq] at h h'
  obtain ⟨t, ht, hk⟩ := map_eq_some_iff.mp h
  obtain ⟨t', ht', hk'⟩ := map_eq_some_iff.mp h'
  refine ⟨t, ht, ?_⟩
  rw [ht', FiveTuple.eq_of_key (hk'.trans hk.symm)]

/-! ### The tables -/

/-- Take out a lease on a flow; a packet of no flow leaves the table as it is. -/
def recordKey (order : IterOrder Key) (key : Option Key) (nowMs : ℕ) (seen : Leases Key) :
    Leases Key :=
  match key with
  | none => seen
  | some key => seen.grant order MAX_FLOWS IDLE_MS nowMs key

def renewKey (key : Option Key) (nowMs : ℕ) (seen : Leases Key) : Leases Key × Bool :=
  match key with
  | none => (seen, false)
  | some key => seen.renew IDLE_MS nowMs key

structure Flows where
  seen : Leases Key

namespace Flows

def new : Flows := ⟨∅⟩

def record (order : IterOrder Key) (direction : Direction) (packet : Bytes) (nowMs : ℕ)
    (f : Flows) : Flows := ⟨recordKey order (Key.of direction packet) nowMs f.seen⟩

def permits (direction : Direction) (packet : Bytes) (nowMs : ℕ) (f : Flows) : Flows × Bool :=
  let (seen, permitted) := renewKey (Key.of direction packet) nowMs f.seen
  (⟨seen⟩, permitted)

def clear (_ : Flows) : Flows := ⟨∅⟩

end Flows

structure SshAdmissions where
  seen : Leases Key

namespace SshAdmissions

def new : SshAdmissions := ⟨∅⟩

/-- Whether the gate already let this flow through, refreshing it if so. -/
def isAdmitted (direction : Direction) (packet : Bytes) (nowMs : ℕ) (s : SshAdmissions) :
    SshAdmissions × Bool :=
  let (seen, admitted) := renewKey (Key.of direction packet) nowMs s.seen
  (⟨seen⟩, admitted)

def admitPacket (order : IterOrder Key) (direction : Direction) (packet : Bytes) (nowMs : ℕ)
    (s : SshAdmissions) : SshAdmissions :=
  ⟨recordKey order (Key.of direction packet) nowMs s.seen⟩

end SshAdmissions

section

variable {order : IterOrder Key} {key : Option Key} {k : Key} {now v : ℕ} {seen : Leases Key}

theorem of_lookup_recordKey (h : (recordKey order key now seen).lookup k = some v) :
    key = some k ∧ v = now ∨ key ≠ some k ∧ seen.lookup k = some v := by
  cases key with
  | none => exact .inr ⟨by simp, h⟩
  | some k' =>
    by_cases hk : k' = k
    · subst hk
      rw [recordKey, Leases.lookup_grant_self, some.injEq] at h
      exact .inl ⟨rfl, h.symm⟩
    · exact .inr ⟨by simpa using hk, Leases.of_lookup_grant (Ne.symm hk) h⟩

theorem of_lookup_renewKey (h : (renewKey key now seen).1.lookup k = some v) :
    key = some k ∧ v = now ∧ (renewKey key now seen).2 = true ∨ key ≠ some k ∧ seen.lookup k = some v := by
  cases key with
  | none => exact .inr ⟨by simp, h⟩
  | some k' =>
    by_cases hk : k' = k
    · subst hk
      rw [renewKey] at h ⊢
      rw [Leases.lookup_renew_self] at h
      split_ifs at h with hgood
      · exact .inl ⟨rfl, (some.inj h).symm, hgood⟩
    · exact .inr ⟨by simpa using hk, Leases.of_lookup_renew (Ne.symm hk) h⟩

theorem renewKey_eq_true : (renewKey key now seen).2 = true
    ↔ ∃ k last, key = some k ∧ seen.lookup k = some last ∧ now ≤ last + IDLE_MS := by
  cases key with
  | none => simp [renewKey]
  | some k => simp [renewKey, Leases.renew_eq_true]

end

end Karst.Datapath
