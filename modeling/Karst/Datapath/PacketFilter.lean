import Karst.Datapath.Packet

/-!
# The compiled packet filter

`karstd/src/filter.rs`: the rules of a netmap compiled against the datapath's order of peers, and
their evaluation on a packet.  A rule names peers by index, ordinary ingress rules and those for
forwarding are kept apart, and no policy source at all (`none`) is not an empty policy.
-/

namespace Karst.Datapath

open Net

abbrev PeerIndex := ℕ

/-! ### Rules -/

structure WirePorts where
  first : UInt32
  last : UInt32

structure WireRule where
  srcs : List Bytes
  dstCidrs : List Bytes
  ports : List WirePorts

structure WireEgressRule where
  dsts : List Bytes
  dstCidrs : List Bytes
  ports : List WirePorts

structure PortRange where
  first : UInt16
  last : UInt16

namespace PortRange

def fromWire (r : WirePorts) : Option PortRange :=
  if r.first.toNat < 65536 ∧ r.last.toNat < 65536 ∧ r.first ≤ r.last then
    some ⟨r.first.toUInt16, r.last.toUInt16⟩
  else none

def contains (r : PortRange) (port : UInt16) : Bool := port ≥ r.first && port ≤ r.last

end PortRange

inductive NodeSet where
  | any
  | these (set : Finset PeerIndex)
  deriving DecidableEq

def NodeSet.contains : NodeSet → PeerIndex → Bool
  | .any, _ => true
  | .these set, peer => decide (peer ∈ set)

structure Rule where
  nodes : NodeSet
  dstPrefixes : List Prefix
  ports : List PortRange

/-- A rule matches by the peer, if the destination is the peer's own, or by the destination. -/
def Rule.permits (r : Rule) (peer : PeerIndex) (port : UInt16) (destination : Option IpAddr)
    (peerOwnsDestination : Bool) : Bool :=
  let viaNode := r.nodes.contains peer && peerOwnsDestination
  let viaCidr := destination.any fun d => r.dstPrefixes.any (·.contains d)
  (viaNode || viaCidr) && r.ports.any (·.contains port)

inductive Verdict where
  | permit
  | denied
  | unclassifiable
  deriving DecidableEq

/-! ### Compilation -/

/-- The peers of a list of names: a name the node holds no peer for is dropped. -/
def nodeSet (nodes : List Bytes) (handles : List Bytes) : NodeSet :=
  if ascii "*" ∈ nodes then .any else .these (nodes.filterMap handles.idxOf?).toFinset

/-- `matches!(&nodes, NodeSet::These(set) if set.is_empty())`. -/
def NodeSet.grantsNoPeer (nodes : NodeSet) : Bool := nodes == .these ∅

def compileRule (nodes : List Bytes) (ports : List WirePorts) (handles : List Bytes) :
    Option Rule :=
  let ports := ports.filterMap PortRange.fromWire
  if ports = [] then none
  else
    let nodes := nodeSet nodes handles
    if nodes.grantsNoPeer then none else some ⟨nodes, [], ports⟩

section

variable (parseIp : Bytes → Option IpAddr)

def parsePrefixes (cidrs : List Bytes) : List Prefix :=
  cidrs.filterMap fun c => (Prefix.fromStr parseIp c).toOption

def compileEgressRule (r : WireEgressRule) (handles : List Bytes) : Option Rule :=
  let ports := r.ports.filterMap PortRange.fromWire
  if ports = [] then none
  else
    let nodes := nodeSet r.dsts handles
    let dstPrefixes := parsePrefixes parseIp r.dstCidrs
    if nodes.grantsNoPeer = true ∧ dstPrefixes = [] then none else some ⟨nodes, dstPrefixes, ports⟩

def compileForwarding (r : WireRule) (handles : List Bytes) : Option Rule := do
  let rule ← compileRule r.srcs r.ports handles
  let dstPrefixes := parsePrefixes parseIp r.dstCidrs
  if dstPrefixes = [] then none else some { rule with dstPrefixes }

end

/-- `none` is no policy source at all. -/
structure PacketFilter where
  ingress : Option (List Rule)
  egress : Option (List Rule)
  forwarding : List Rule
  scopedReady : Bool
  kernelGuardRequired : Bool

namespace PacketFilter

def unrestricted : PacketFilter := ⟨none, none, [], false, false⟩

def compile (parseIp : Bytes → Option IpAddr) (ingress : List WireRule)
    (egress : List WireEgressRule) (handles : List Bytes) : PacketFilter where
  ingress := some ((ingress.filter fun r => r.dstCidrs.isEmpty).filterMap fun r =>
    compileRule r.srcs r.ports handles)
  egress := some (egress.filterMap fun r => compileEgressRule parseIp r handles)
  forwarding := (ingress.filter fun r => !r.dstCidrs.isEmpty).filterMap fun r =>
    compileForwarding parseIp r handles
  scopedReady := false
  kernelGuardRequired := false

/-! ### Evaluation -/

/-- Whether the packet is addressed to the peer itself; `none` does not ask. -/
def ownsDestination (ownAddresses : Option (List Prefix)) (destination : Option IpAddr) : Bool :=
  match ownAddresses with
  | none => true
  | some addresses => destination.any fun d => addresses.any (·.contains d)

/-- `ownAddresses` restricts a match by peer to packets addressed to it. -/
def evaluate (rules : Option (List Rule)) (peer : PeerIndex) (packet : Bytes)
    (ownAddresses : Option (List Prefix)) : Verdict :=
  match rules with
  | none => .permit
  | some rules =>
    match Ip.ports packet with
    | none => .unclassifiable
    | some ports =>
      let destination := Ip.destination packet
      let peerOwnsDestination := ownsDestination ownAddresses destination
      if rules.any fun r => r.permits peer ports.destination destination peerOwnsDestination then
        .permit
      else .denied

def ingressVerdict (f : PacketFilter) (peer : PeerIndex) (packet : Bytes) : Verdict :=
  evaluate f.ingress peer packet none

def ingressForward (f : PacketFilter) (peer : PeerIndex) (packet : Bytes) : Verdict :=
  let regular := f.ingressVerdict peer packet
  if regular ≠ .denied then regular
  else
    match Ip.ports packet, Ip.destination packet with
    | none, _ => .unclassifiable
    | some _, none => .unclassifiable
    | some ports, some destination =>
      if f.forwarding.any fun r => r.nodes.contains peer && r.dstPrefixes.any (·.contains destination)
          && r.ports.any (·.contains ports.destination) then .permit
      else .denied

def egressVerdict (f : PacketFilter) (peer : PeerIndex) (packet : Bytes) (addresses : List Prefix) :
    Verdict := evaluate f.egress peer packet (some addresses)

def hasScopedIngress (f : PacketFilter) : Bool := !f.forwarding.isEmpty

def isScopedReady (f : PacketFilter) : Bool :=
  !(f.hasScopedIngress || f.kernelGuardRequired) || f.scopedReady

/-- A service of the node itself, for which there is no packet to read. -/
def evaluateService (rules : Option (List Rule)) (peer : PeerIndex) (port : UInt16) : Verdict :=
  match rules with
  | none => .permit
  | some rules => if rules.any fun r => r.permits peer port none true then .permit else .denied

def ingressService (f : PacketFilter) (peer : PeerIndex) (port : UInt16) : Verdict :=
  evaluateService f.ingress peer port

end PacketFilter

/-- The gate for connections to port 22, beside the packet filter; `none` is no gate. -/
structure SshFilter where
  rules : Option (List Rule)

namespace SshFilter

def absent : SshFilter := ⟨none⟩

def admitPeer (f : SshFilter) (peer : PeerIndex) : Verdict := PacketFilter.evaluateService f.rules peer 22

end SshFilter

/-! ### Names and ports of a compiled rule -/

/-- The handles of the peers, in the order of the datapath.  They are the keys of a map. -/
structure Handles where
  list : List Bytes
  nodup : list.Nodup

section

variable (handles : Handles) {peer : PeerIndex}

theorem contains_nodeSet {nodes : List Bytes} {handle : Bytes} (hpeer : handles.list[peer]? = some handle) :
    (nodeSet nodes handles.list).contains peer = true ↔ ascii "*" ∈ nodes ∨ handle ∈ nodes := by
  unfold nodeSet
  by_cases hw : ascii "*" ∈ nodes
  · simp [hw, NodeSet.contains]
  · have hidx name : handles.list.idxOf? name = some peer ↔ name = handle := by
      obtain ⟨hlt, hget⟩ := List.getElem?_eq_some_iff.mp hpeer
      rw [List.idxOf?_eq_some_iff]
      constructor
      · rintro ⟨_, hname, -⟩
        rw [← hname, hget]
      · rintro rfl
        refine ⟨hlt, hget, ?_⟩
        intro j hj heq
        have := (List.Nodup.getElem_inj_iff handles.nodup).mp (heq.trans hget.symm)
        omega
    simp only [hw, if_false, NodeSet.contains, decide_eq_true_eq, List.mem_toFinset,
      List.mem_filterMap, hidx, false_or]
    exact ⟨fun ⟨name, hname, heq⟩ => heq ▸ hname, fun h => ⟨handle, h, rfl⟩⟩

variable {port : UInt16}

theorem contains_of_grantsNoPeer {nodes : NodeSet} (h : nodes.grantsNoPeer = true) :
    nodes.contains peer = false := by
  rw [show nodes = .these ∅ from beq_iff_eq.mp h]
  simp [NodeSet.contains]

def Rule.Matches (r : Rule) (peer : PeerIndex) (port : UInt16) : Prop :=
  r.nodes.contains peer = true ∧ r.ports.any (·.contains port) = true

theorem compileRule_matches {nodes : List Bytes} {ports : List WirePorts} {handles : List Bytes} :
    (∃ r, compileRule nodes ports handles = some r ∧ r.Matches peer port)
      ↔ (nodeSet nodes handles).contains peer = true
        ∧ (ports.filterMap PortRange.fromWire).any (·.contains port) = true := by
  unfold compileRule
  by_cases hports : ports.filterMap PortRange.fromWire = []
  · simp [hports]
  · rw [if_neg hports]
    by_cases hnodes : (nodeSet nodes handles).grantsNoPeer = true
    · rw [if_pos hnodes, contains_of_grantsNoPeer hnodes]
      simp
    · rw [if_neg hnodes]
      refine ⟨?_, fun h => ⟨_, rfl, h⟩⟩
      rintro ⟨r, hr, hmatch⟩
      obtain rfl := Option.some.inj hr
      exact hmatch

theorem compileRule_dstPrefixes {nodes : List Bytes} {ports : List WirePorts} {handles : List Bytes}
    {r : Rule} (h : compileRule nodes ports handles = some r) : r.dstPrefixes = [] := by
  unfold compileRule at h
  dsimp only at h
  split_ifs at h
  rw [← Option.some.inj h]

theorem Rule.permits_iff_matches {r : Rule} {destination : Option IpAddr} (h : r.dstPrefixes = []) :
    r.permits peer port destination true = true ↔ r.Matches peer port := by
  have hnone : (destination.any fun d => r.dstPrefixes.any (·.contains d)) = false := by
    rw [h]
    cases destination <;> rfl
  rw [Rule.permits, hnone, Bool.and_true, Bool.or_false, Bool.and_eq_true, Rule.Matches]

namespace PacketFilter

variable {parseIp : Bytes → Option IpAddr} {ingress : List WireRule} {egress : List WireEgressRule}
  {handles : List Bytes} {packet : Bytes} {ports : Ip.Ports} {a : IpAddr}

theorem ite_permit_iff {p : Prop} [Decidable p] : (if p then Verdict.permit else .denied) = .permit ↔ p := by
  by_cases h : p <;> simp [h]

theorem evaluate_permit_iff {rules : List Rule} {own : Option (List Prefix)}
    (hports : Ip.ports packet = some ports) : evaluate (some rules) peer packet own = .permit ↔ ∃ r ∈ rules,
      r.permits peer ports.destination (Ip.destination packet)
        (ownsDestination own (Ip.destination packet)) = true := by
  rw [evaluate.eq_def]
  simp only [hports]
  rw [ite_permit_iff, List.any_eq_true]

theorem evaluate_eq_denied {rules : List Rule} {own : Option (List Prefix)}
    (hports : Ip.ports packet = some ports) (h : evaluate (some rules) peer packet own ≠ .permit) :
    evaluate (some rules) peer packet own = .denied := by
  rw [evaluate.eq_def] at h ⊢
  simp only [hports] at h ⊢
  split_ifs at h ⊢
  · exact absurd rfl h
  · rfl

theorem exists_mem_filterMap {α β : Type*} {f : α → Option β} {l : List α} {q : β → Prop} :
    (∃ b ∈ l.filterMap f, q b) ↔ ∃ a ∈ l, ∃ b, f a = some b ∧ q b := by
  simp only [List.mem_filterMap]
  constructor
  · rintro ⟨b, ⟨a, ha, hb⟩, hq⟩
    exact ⟨a, ha, b, hb, hq⟩
  · rintro ⟨a, ha, b, hb, hq⟩
    exact ⟨b, ⟨a, ha, hb⟩, hq⟩

/-- **Ingress.**  A compiled filter permits what an ordinary rule it was compiled from does. -/
theorem ingress_permit_iff (hports : Ip.ports packet = some ports) :
    (compile parseIp ingress egress handles).ingressVerdict peer packet = .permit
      ↔ ∃ r ∈ ingress, r.dstCidrs = [] ∧ (nodeSet r.srcs handles).contains peer = true
        ∧ (r.ports.filterMap PortRange.fromWire).any (·.contains ports.destination) = true := by
  rw [ingressVerdict, compile, evaluate_permit_iff hports]
  rw [exists_mem_filterMap]
  simp only [List.mem_filter, List.isEmpty_iff, and_assoc]
  refine exists_congr fun r => and_congr_right fun _ => and_congr_right fun _ => ?_
  rw [← compileRule_matches]
  exact exists_congr fun rule => and_congr_right fun hrule =>
    Rule.permits_iff_matches (compileRule_dstPrefixes hrule)

theorem compileForwarding_matches {r : WireRule} : (∃ rule, compileForwarding parseIp r handles = some rule
      ∧ (rule.nodes.contains peer && rule.dstPrefixes.any (·.contains a)
        && rule.ports.any (·.contains port)) = true)
      ↔ (parsePrefixes parseIp r.dstCidrs).any (·.contains a) = true
        ∧ (nodeSet r.srcs handles).contains peer = true
        ∧ (r.ports.filterMap PortRange.fromWire).any (·.contains port) = true := by
  rw [← compileRule_matches]
  unfold compileForwarding
  constructor
  · rintro ⟨rule, hrule, hmatch⟩
    obtain ⟨base, hbase, hrule⟩ := Option.bind_eq_some_iff.mp hrule
    dsimp only at hrule
    split_ifs at hrule with hnil
    obtain rfl := Option.some.inj hrule
    simp only [Bool.and_eq_true] at hmatch
    exact ⟨hmatch.1.2, base, hbase, hmatch.1.1, hmatch.2⟩
  · rintro ⟨hcidrs, base, hbase, hpeer, hport⟩
    have hnil : parsePrefixes parseIp r.dstCidrs ≠ [] := by
      intro hnil
      simp [hnil] at hcidrs
    refine ⟨{ base with dstPrefixes := parsePrefixes parseIp r.dstCidrs }, ?_, by simp [*]⟩
    rw [hbase]
    exact if_neg hnil

/-- **Forwarding.**  An ordinary rule, or a rule with a network the destination is in. -/
theorem ingressForward_permit_iff (hports : Ip.ports packet = some ports)
    (ha : Ip.destination packet = some a) :
    (compile parseIp ingress egress handles).ingressForward peer packet = .permit
      ↔ ∃ r ∈ ingress, (r.dstCidrs = [] ∨ (parsePrefixes parseIp r.dstCidrs).any (·.contains a) = true)
        ∧ (nodeSet r.srcs handles).contains peer = true
        ∧ (r.ports.filterMap PortRange.fromWire).any (·.contains ports.destination) = true := by
  set f := compile parseIp ingress egress handles with hf
  have hregular : f.ingressVerdict peer packet = .permit ↔ _ := ingress_permit_iff hports
  have hforward : (f.forwarding.any fun r => r.nodes.contains peer
        && r.dstPrefixes.any (·.contains a) && r.ports.any (·.contains ports.destination)) = true
      ↔ ∃ r ∈ ingress, r.dstCidrs ≠ [] ∧ (parsePrefixes parseIp r.dstCidrs).any (·.contains a) = true
        ∧ (nodeSet r.srcs handles).contains peer = true
        ∧ (r.ports.filterMap PortRange.fromWire).any (·.contains ports.destination) = true := by
    rw [List.any_eq_true, hf, compile, exists_mem_filterMap]
    simp only [List.mem_filter, compileForwarding_matches, and_assoc]
    simp
  unfold ingressForward
  by_cases hpermit : f.ingressVerdict peer packet = .permit
  · rw [if_pos (by rw [hpermit]; decide)]
    obtain ⟨r, hr, hcidrs, hmatch⟩ := hregular.mp hpermit
    exact ⟨fun _ => ⟨r, hr, Or.inl hcidrs, hmatch⟩, fun _ => hpermit⟩
  · have hdenied : f.ingressVerdict peer packet = .denied := evaluate_eq_denied hports hpermit
    rw [if_neg (by rw [hdenied]; decide)]
    simp only [hports, ha]
    rw [ite_permit_iff, hforward]
    constructor
    · rintro ⟨r, hr, -, hcidr, hmatch⟩
      exact ⟨r, hr, Or.inr hcidr, hmatch⟩
    · rintro ⟨r, hr, hnil | hcidr, hmatch⟩
      · exact absurd (hregular.mpr ⟨r, hr, hnil, hmatch⟩) hpermit
      · refine ⟨r, hr, ?_, hcidr, hmatch⟩
        intro hnil
        simp [hnil, parsePrefixes] at hcidr

theorem compileEgressRule_permits {r : WireEgressRule} {own : Bool} :
    (∃ rule, compileEgressRule parseIp r handles = some rule ∧ rule.permits peer port (some a) own = true)
      ↔ ((nodeSet r.dsts handles).contains peer = true ∧ own = true
          ∨ (parsePrefixes parseIp r.dstCidrs).any (·.contains a) = true)
        ∧ (r.ports.filterMap PortRange.fromWire).any (·.contains port) = true := by
  unfold compileEgressRule
  by_cases hports : r.ports.filterMap PortRange.fromWire = []
  · simp [hports]
  · rw [if_neg hports]
    by_cases hnone : (nodeSet r.dsts handles).grantsNoPeer = true ∧ parsePrefixes parseIp r.dstCidrs = []
    · rw [if_pos hnone, hnone.2, contains_of_grantsNoPeer hnone.1]
      simp
    · rw [if_neg hnone]
      constructor
      · rintro ⟨rule, hrule, hpermits⟩
        obtain rfl := Option.some.inj hrule
        simpa only [Rule.permits, Option.any_some, Bool.and_eq_true, Bool.or_eq_true] using hpermits
      · intro h
        refine ⟨_, rfl, ?_⟩
        simpa only [Rule.permits, Option.any_some, Bool.and_eq_true, Bool.or_eq_true] using h

/-- **Egress.**  A rule that names the peer, if the packet is for the peer itself, or a rule with a
network the destination is in. -/
theorem egress_permit_iff {addresses : List Prefix} (hports : Ip.ports packet = some ports)
    (ha : Ip.destination packet = some a) :
    (compile parseIp ingress egress handles).egressVerdict peer packet addresses = .permit
      ↔ ∃ r ∈ egress, ((nodeSet r.dsts handles).contains peer = true ∧ addresses.any (·.contains a) = true
          ∨ (parsePrefixes parseIp r.dstCidrs).any (·.contains a) = true)
        ∧ (r.ports.filterMap PortRange.fromWire).any (·.contains ports.destination) = true := by
  rw [egressVerdict, compile, evaluate_permit_iff hports, ha, ownsDestination, Option.any_some,
    exists_mem_filterMap]
  simp only [compileEgressRule_permits]

end PacketFilter

end

end Karst.Datapath
