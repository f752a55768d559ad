import Karst.Datapath.PacketFilter
import Karst.Policy.Compile
import Karst.Net.Reference

/-!
# The datapath filter and the reference evaluator

The rules a policy compiles to are shipped in the netmap, compiled again by each node against its
own peers (`PacketFilter.compile`), and evaluated on packets.  `Filter.Permits` and
`EgressFilter.Permits` are the control plane's evaluators of the same rules.

* `filter_agrees` : the verdicts.  Of an outbound packet the datapath asks about the peer and about
  the address; the reference evaluator is asked about one of them at a time.
-/

namespace Karst.Datapath

open Net Policy Option Except PacketFilter Document
open List hiding Vector

/-! ### On the wire -/

def wirePorts (ports : List Policy.PortRange) : List WirePorts :=
  ports.map fun p => ⟨p.first.toUInt32, p.last.toUInt32⟩

def wireRule (r : FilterRule) : WireRule := ⟨r.srcs, r.dstCidrs, wirePorts r.ports⟩

def wireEgressRule (r : EgressRule) : WireEgressRule := ⟨r.dsts, r.dstCidrs, wirePorts r.ports⟩

/-! ### The parts of a rule -/

theorem range_agree (p : Policy.PortRange) (port : UInt16) :
    (∃ r, PortRange.fromWire ⟨p.first.toUInt32, p.last.toUInt32⟩ = some r ∧ r.contains port = true)
      ↔ p.contains port = true := by
  have hfirst := p.first.toNat_lt
  have hlast := p.last.toNat_lt
  have hle : p.first.toUInt32 ≤ p.last.toUInt32 ↔ p.first ≤ p.last := by
    rw [UInt32.le_iff_toNat_le, UInt16.le_iff_toNat_le, UInt16.toNat_toUInt32, UInt16.toNat_toUInt32]
  have hcontains : p.contains port = true ↔ p.first ≤ port ∧ port ≤ p.last := by
    simp [Policy.PortRange.contains]
  rw [hcontains, PortRange.fromWire]
  by_cases horder : p.first ≤ p.last
  · rw [if_pos ⟨by simpa using hfirst, by simpa using hlast, hle.mpr horder⟩]
    simp [PortRange.contains]
  · rw [if_neg fun h => horder (hle.mp h.2.2)]
    refine ⟨by simp, fun h => absurd (UInt16.le_trans h.1 h.2) horder⟩

theorem ports_agree (ports : List Policy.PortRange) (port : UInt16) :
    ((wirePorts ports).filterMap PortRange.fromWire).any (·.contains port) = portsContain ports port := by
  rw [Bool.eq_iff_iff, List.any_eq_true, portsContain, List.any_eq_true]
  constructor
  · rintro ⟨r, hr, hport⟩
    obtain ⟨w, hw, hr⟩ := mem_filterMap.mp hr
    obtain ⟨p, hp, rfl⟩ := mem_map.mp hw
    exact ⟨p, hp, (range_agree p port).mp ⟨r, hr, hport⟩⟩
  · rintro ⟨p, hp, hport⟩
    obtain ⟨r, hr, hport⟩ := (range_agree p port).mpr hport
    exact ⟨r, mem_filterMap.mpr ⟨_, mem_map_of_mem hp, hr⟩, hport⟩

section

variable (handles : Handles) {peer : PeerIndex} {handle : Bytes}

theorem names_agree (hpeer : handles.list[peer]? = some handle) (nodes : List Bytes) :
    (nodeSet nodes handles.list).contains peer = names nodes handle := by
  rw [Bool.eq_iff_iff, contains_nodeSet handles hpeer, names_iff]
  rfl

end

section

variable {N : Netip} {parseIp : Bytes → Option IpAddr}

/-- The networks of a compiled rule are in canonical form. -/
def Canonical (N : Netip) (cidrs : List Bytes) : Prop :=
  ∀ cidr ∈ cidrs, ∃ p : Netip.Prefix, cidr = N.prefixString p.masked

variable (hip : ∀ a, parseIp (N.string a) = some a)

include hip

theorem fromStr_prefixString (p : Netip.Prefix) :
    ∃ q, Prefix.fromStr parseIp (N.prefixString p.masked) = .ok q
      ∧ ∀ a, q.contains a = p.masked.contains ⟨a, []⟩ := by
  have hwidth := p.ip.width_le
  have hcut : cutAt 0x2F (N.prefixString p.masked) = some (N.string p.masked.ip, decimal p.masked.bits) :=
    cutAt_append (N.slash_notMem_string _)
  have hlen : ∀ n ≤ 128, Prefix.parseLength (decimal n) = some n := by decide +kernel
  rw [Prefix.fromStr, hcut]
  simp only [hip, hlen p.masked.bits (p.bits_le.trans hwidth), okOr_some, ok_bind]
  rw [Prefix.new, dif_pos p.masked.bits_le]
  refine ⟨_, rfl, ?_⟩
  intro a
  rw [Bool.eq_iff_iff, Prefix.contains_iff, Netip.Prefix.contains_iff]
  show SameNet p.bits a (mask (mask p.ip p.bits) p.bits) ↔ _
  rw [mask_mask]
  simp [Netip.Prefix.masked]

theorem cidrs_agree {cidrs : List Bytes} (hc : Canonical N cidrs) (a : IpAddr) :
    (parsePrefixes parseIp cidrs).any (·.contains a) = cidrsContain N cidrs ⟨a, []⟩ := by
  rw [Bool.eq_iff_iff, List.any_eq_true, cidrsContain, List.any_eq_true]
  constructor
  · rintro ⟨q, hq, hcontains⟩
    obtain ⟨cidr, hcidr, hq⟩ := mem_filterMap.mp hq
    obtain ⟨p, rfl⟩ := hc cidr hcidr
    obtain ⟨q', hq', hagree⟩ := fromStr_prefixString hip p
    rw [hq'] at hq
    obtain rfl : q' = q := some.inj hq
    refine ⟨_, hcidr, ?_⟩
    rw [N.parsePrefix_string]
    exact (hagree a).symm.trans hcontains
  · rintro ⟨cidr, hcidr, hcontains⟩
    obtain ⟨p, rfl⟩ := hc cidr hcidr
    obtain ⟨q, hq, hagree⟩ := fromStr_prefixString hip p
    rw [N.parsePrefix_string] at hcontains
    exact ⟨q, mem_filterMap.mpr ⟨_, hcidr, by rw [hq]; rfl⟩, (hagree a).trans hcontains⟩

end

/-! ### Compiled rules are canonical -/

section

variable {N : Netip} {d : Document} {target : Node} {all : List Node}

theorem canonical_nil : Canonical N [] := by
  intro cidr hcidr
  simp at hcidr

theorem compileDst_canonical {i : ℕ} {rule : Policy.Rule} {dst : Bytes} {rs : List FilterRule}
    (h : d.compileDst target all i rule dst = .ok rs) : ∀ r ∈ rs, Canonical N r.dstCidrs := by
  obtain ⟨parts, -, h⟩ := bind_eq_ok.mp h
  intro r hr
  dsimp only at h
  split at h
  · obtain rfl := ok.inj h
    simp at hr
  · split at h
    · obtain rfl := ok.inj h
      simp at hr
    · obtain rfl := ok.inj h
      rw [mem_singleton.mp hr]
      exact canonical_nil

theorem compileGateway_canonical {g : Grant} {rs : List FilterRule}
    (h : d.compileGateway N target all g = .ok rs) : ∀ r ∈ rs, Canonical N r.dstCidrs := by
  intro r hr
  unfold compileGateway at h
  dsimp only at h
  split at h
  · obtain rfl := ok.inj h
    simp at hr
  · split at h
    · obtain rfl := ok.inj h
      simp at hr
    · obtain ⟨ports, -, h⟩ := bind_eq_ok.mp h
      obtain ⟨texts, htexts, h⟩ := bind_eq_ok.mp h
      obtain rfl := ok.inj h
      rw [mem_singleton.mp hr]
      intro cidr hcidr
      obtain ⟨network, -, ys, hys, hmem⟩ := (mem_collect htexts).mp (mem_mergeSort.mp hcidr)
      obtain ⟨p, -, hys⟩ := bind_eq_ok.mp hys
      obtain rfl := ok.inj hys
      exact ⟨p, mem_singleton.mp hmem⟩

theorem compile_canonical {f : Filter} (h : d.compile N target all = .ok f) :
    ∀ r ∈ f.rules, Canonical N r.dstCidrs := by
  obtain ⟨rules, hrules, h⟩ := bind_eq_ok.mp h
  obtain ⟨gateways, hgateways, h⟩ := bind_eq_ok.mp h
  obtain rfl := ok.inj h
  intro r hr
  obtain ⟨r₀, hr₀, rfl⟩ := mem_map.mp (mem_mergeSort.mp hr)
  show Canonical N r₀.dstCidrs
  rcases mem_append.mp hr₀ with hr₀ | hr₀
  · obtain ⟨rule, -, rs, hrs, hmem⟩ := (mem_collect hrules).mp hr₀
    obtain ⟨dst, -, rs', hrs', hmem⟩ := (mem_collect hrs).mp hmem
    exact compileDst_canonical hrs' _ hmem
  · obtain ⟨g, -, rs, hrs, hmem⟩ := (mem_collect hgateways).mp hr₀
    exact compileGateway_canonical hrs _ hmem

/-- An egress rule names nodes of the account, or everybody. -/
def NamesNodes (all : List Node) (dsts : List Bytes) : Prop :=
  ∀ dst ∈ dsts, dst = wildcard ∨ ∃ n ∈ all, n.handle = dst

theorem resolveSources_namesNodes {selectors : List Bytes} :
    NamesNodes all (d.resolveSources selectors all) := by
  intro dst hdst
  by_cases hw : wildcard ∈ selectors
  · rw [resolveSources, resolveFrom_wildcard hw] at hdst
    exact .inl (mem_singleton.mp hdst)
  · rcases (mem_resolveFrom hw).mp hdst with hnil | ⟨-, -, n, hn, -, hh⟩
    · simp at hnil
    · exact .inr ⟨n, hn, hh⟩

theorem compileEgressDst_canonical {i : ℕ} {sourceTerm dst : Bytes} {rs : List EgressRule}
    (h : d.compileEgressDst N all i sourceTerm dst = .ok rs) :
    ∀ r ∈ rs, Canonical N r.dstCidrs ∧ NamesNodes all r.dsts := by
  obtain ⟨parts, -, h⟩ := bind_eq_ok.mp h
  intro r hr
  cases hcidr : parseCIDRSelector N parts.1 with
  | some cidr =>
    rw [hcidr] at h
    obtain rfl := ok.inj h
    rw [mem_singleton.mp hr]
    refine ⟨?_, by intro dst hdst; simp at hdst⟩
    intro c hc
    obtain rfl := mem_singleton.mp hc
    unfold parseCIDRSelector at hcidr
    split at hcidr
    · obtain ⟨p, -, hp⟩ := map_eq_some_iff.mp hcidr
      exact ⟨p, hp.symm⟩
    · simp at hcidr
  | none =>
    rw [hcidr] at h
    dsimp only at h
    split at h
    · obtain rfl := ok.inj h
      simp at hr
    · obtain rfl := ok.inj h
      rw [mem_singleton.mp hr]
      exact ⟨canonical_nil, resolveSources_namesNodes⟩

theorem compileEgress_canonical {f : EgressFilter} (h : d.compileEgress N target all = .ok f) :
    ∀ r ∈ f.rules, Canonical N r.dstCidrs ∧ NamesNodes all r.dsts := by
  obtain ⟨rules, hrules, h⟩ := bind_eq_ok.mp h
  obtain rfl := ok.inj h
  intro r hr
  obtain ⟨r₀, hr₀, rfl⟩ := mem_map.mp (mem_mergeSort.mp hr)
  show Canonical N r₀.dstCidrs ∧ NamesNodes all r₀.dsts
  obtain ⟨rule, -, rs, hrs, hmem⟩ := (mem_collect hrules).mp hr₀
  unfold Document.compileEgressRule at hrs
  dsimp only at hrs
  split at hrs
  · obtain rfl := ok.inj hrs
    simp at hmem
  · obtain ⟨dst, -, rs', hrs', hmem⟩ := (mem_collect hrs).mp hmem
    exact compileEgressDst_canonical hrs' _ hmem

end

/-! ### Verdicts -/

section

variable {N : Netip} {parseIp : Bytes → Option IpAddr} (hip : ∀ a, parseIp (N.string a) = some a)
  (handles : Handles) {peer : PeerIndex} {handle : Bytes}
  (hpeer : handles.list[peer]? = some handle) {packet : Bytes} {ports : Ip.Ports} {a : IpAddr}
  (hports : Ip.ports packet = some ports) (ha : Ip.destination packet = some a) {d : Document} {target : Node}

include hpeer hports

theorem ingress_agrees (f : Filter) (egress : List WireEgressRule) :
    (compile parseIp (f.rules.map wireRule) egress handles.list).ingressVerdict peer
        packet = .permit ↔ f.permits N handle ports.destination = true := by
  rw [ingress_permit_iff hports, Filter.permits, Filter.permitsWith, List.any_eq_true]
  constructor
  · rintro ⟨w, hw, hcidrs, hnames, hport⟩
    obtain ⟨r, hr, rfl⟩ := mem_map.mp hw
    rw [wireRule, ports_agree] at hport
    exact ⟨r, hr, FilterRule.permits_machine.mpr
      ⟨hcidrs, (names_agree handles hpeer r.srcs).symm.trans hnames, hport⟩⟩
  · rintro ⟨r, hr, hpermits⟩
    obtain ⟨hcidrs, hnames, hport⟩ := FilterRule.permits_machine.mp hpermits
    exact ⟨wireRule r, mem_map_of_mem hr, hcidrs, (names_agree handles hpeer r.srcs).trans hnames,
      (ports_agree r.ports _).trans hport⟩

include hip ha

theorem ingressForward_agrees {all : List Node} {f : Filter} (hf : d.compile N target all = .ok f)
    (egress : List WireEgressRule) :
    (compile parseIp (f.rules.map wireRule) egress handles.list).ingressForward peer
        packet = .permit ↔ f.permitsForward N handle ⟨a, []⟩ ports.destination = true := by
  have hrule : ∀ r ∈ f.rules, (r.permits N handle ports.destination (some ⟨a, []⟩) true = true ↔
      (r.dstCidrs = [] ∨ (parsePrefixes parseIp r.dstCidrs).any (·.contains a) = true)
        ∧ (nodeSet r.srcs handles.list).contains peer = true
        ∧ ((wirePorts r.ports).filterMap PortRange.fromWire).any (·.contains ports.destination) = true) := by
    intro r hr
    rw [cidrs_agree hip (compile_canonical hf r hr), names_agree handles hpeer, ports_agree]
    simp [FilterRule.permits, and_assoc]
  rw [ingressForward_permit_iff hports ha, Filter.permitsForward, Filter.permitsWith, List.any_eq_true]
  constructor
  · rintro ⟨w, hw, hmatch⟩
    obtain ⟨r, hr, rfl⟩ := mem_map.mp hw
    exact ⟨r, hr, (hrule r hr).mpr hmatch⟩
  · rintro ⟨r, hr, hpermits⟩
    exact ⟨wireRule r, mem_map_of_mem hr, (hrule r hr).mp hpermits⟩

theorem egress_agrees (hhandle : N.parseAddr handle = none) (all : Roster N) {f : EgressFilter}
    (hf : d.compileEgress N target all.nodes = .ok f) (ingress : List WireRule)
    {addresses : List Prefix} (howns : addresses.any (·.contains a) = true) :
    (compile parseIp ingress (f.rules.map wireEgressRule) handles.list).egressVerdict
        peer packet addresses = .permit ↔ f.permits N handle ports.destination = true
        ∨ f.permits N (N.string a) ports.destination = true := by
  have hrule : ∀ r ∈ f.rules, (r.permits N handle ports.destination = true
      ∨ r.permits N (N.string a) ports.destination = true) ↔
      ((nodeSet r.dsts handles.list).contains peer = true ∧ addresses.any (·.contains a) = true
          ∨ (parsePrefixes parseIp r.dstCidrs).any (·.contains a) = true)
        ∧ ((wirePorts r.ports).filterMap PortRange.fromWire).any (·.contains ports.destination) = true := by
    intro r hr
    obtain ⟨hcanonical, hnodes⟩ := compileEgress_canonical hf r hr
    have haddr : names r.dsts (N.string a) = true → names r.dsts handle = true := by
      intro hnames
      rcases names_iff.mp hnames with hw | hstring
      · exact names_iff.mpr (.inl hw)
      · rcases hnodes _ hstring with hw | ⟨n, hn, hh⟩
        · exact names_iff.mpr (.inl (hw ▸ hstring))
        · have := all.handle_notAddress n hn
          rw [hh, N.parseAddr_string] at this
          simp at this
    rw [cidrs_agree hip hcanonical, names_agree handles hpeer, ports_agree, howns]
    simp only [EgressRule.permits, hhandle, N.parseAddr_string, any_none, any_some,
      Bool.or_false, Bool.and_eq_true, Bool.or_eq_true, and_true]
    tauto
  have hany : ∀ dst, f.permits N dst ports.destination = true
      ↔ ∃ r ∈ f.rules, r.permits N dst ports.destination = true := fun dst => any_eq_true
  rw [egress_permit_iff hports ha, hany, hany]
  constructor
  · rintro ⟨w, hw, hmatch⟩
    obtain ⟨r, hr, rfl⟩ := mem_map.mp hw
    rcases (hrule r hr).mpr hmatch with hpermits | hpermits
    · exact .inl ⟨r, hr, hpermits⟩
    · exact .inr ⟨r, hr, hpermits⟩
  · rintro (⟨r, hr, hpermits⟩ | ⟨r, hr, hpermits⟩)
    · exact ⟨wireEgressRule r, mem_map_of_mem hr, (hrule r hr).mp (.inl hpermits)⟩
    · exact ⟨wireEgressRule r, mem_map_of_mem hr, (hrule r hr).mp (.inr hpermits)⟩

/-- **The datapath filter is the reference evaluator**, on the rules of a compiled policy and for
the peer's handle. -/
theorem filter_agrees (hhandle : N.parseAddr handle = none) :
    (∀ (d : Document) (target : Node) (all : List Node) (f : Filter) (egress : List WireEgressRule),
      d.compile N target all = .ok f →
      ((PacketFilter.compile parseIp (f.rules.map wireRule) egress handles.list).ingressVerdict peer
          packet = .permit ↔ f.permits N handle ports.destination = true)
      ∧ ((PacketFilter.compile parseIp (f.rules.map wireRule) egress handles.list).ingressForward peer
          packet = .permit ↔ f.permitsForward N handle ⟨a, []⟩ ports.destination = true))
    ∧ ∀ (d : Document) (target : Node) (all : Roster N) (f : EgressFilter) (ingress : List WireRule)
      (addresses : List Prefix), d.compileEgress N target all.nodes = .ok f →
      addresses.any (·.contains a) = true →
      ((PacketFilter.compile parseIp ingress (f.rules.map wireEgressRule) handles.list).egressVerdict
          peer packet addresses = .permit ↔ f.permits N handle ports.destination = true
          ∨ f.permits N (N.string a) ports.destination = true) := by
  refine ⟨?_, ?_⟩
  · intro d target all f egress hf
    exact ⟨ingress_agrees handles hpeer hports f egress,
      ingressForward_agrees hip handles hpeer hports ha hf egress⟩
  · intro d target all f ingress addresses hf howns
    exact egress_agrees hip handles hpeer hports ha hhandle all hf ingress howns

end

/-! ### A network around a peer -/

namespace NetworkGrant

def node : Node := ⟨ascii "hA", false, [], [], []⟩

def roster : Roster reference where
  nodes := [node]
  handles_nodup := by decide +kernel
  handle_ne_wildcard := by decide +kernel
  handle_notAddress := by decide +kernel

def document : Document :=
  ⟨[], ∅, ∅, ∅, [⟨ascii "accept", [wildcard], [ascii "100.64.0.0/10:22"]⟩], none⟩

theorem document_valid : document.validate reference = .ok () := by decide +kernel

def handles : Handles := ⟨[ascii "hB"], by decide +kernel⟩

def address : IpAddr := .v4 0x64400002#32

def packet : Bytes :=
  [0x45, 0, 0, 24, 0, 0, 0, 0, 64, 6, 0, 0, 100, 64, 0, 1, 100, 64, 0, 2, 0x9C, 0x40, 0, 22]

theorem packet_ports : Ip.ports packet = some ⟨6, 40000, 22⟩ := by decide

theorem packet_destination : Ip.destination packet = some address := by decide

end NetworkGrant

open NetworkGrant in
theorem networkGrant_agrees : ∃ f, document.compileEgress reference node roster.nodes = .ok f
    ∧ ((PacketFilter.compile Reference.parseIp [] (f.rules.map wireEgressRule)
          handles.list).egressVerdict 0 packet [Prefix.host address] = .permit
        ↔ f.permits reference (ascii "hB") 22 = true
          ∨ f.permits reference (reference.string address) 22 = true) := by
  obtain ⟨f, hf, -⟩ := compileEgress_permits_iff document_valid node roster.nodes
  exact ⟨f, hf, (filter_agrees Reference.parseIp_string handles rfl packet_ports packet_destination
    (by decide +kernel)).2 document node roster f [] _ hf (by decide)⟩

open NetworkGrant in
/-- **The peer inside a granted network.**  The datapath lets the packet go; the reference evaluator
refuses the peer. -/
theorem networkGrant_differs : ∃ f, document.compileEgress reference node roster.nodes = .ok f
    ∧ (PacketFilter.compile Reference.parseIp [] (f.rules.map wireEgressRule)
        handles.list).egressVerdict 0 packet [Prefix.host address] = .permit
    ∧ f.permits reference (ascii "hB") 22 = false := by
  obtain ⟨f, hf, hiff⟩ := compileEgress_permits_iff document_valid node roster.nodes
  have hsplit : splitDst (ascii "100.64.0.0/10:22") = .ok (ascii "100.64.0.0/10", [⟨22, 22⟩]) := by
    decide +kernel
  refine ⟨f, hf, ?_, ?_⟩
  · refine (egress_agrees Reference.parseIp_string handles rfl packet_ports packet_destination
      (by decide +kernel) roster hf [] (by decide)).mpr (.inr ((hiff _ _).mpr ?_))
    exact ⟨_, mem_singleton_self _, by decide +kernel, _, mem_singleton_self _, _, hsplit,
      by decide +kernel, by decide +kernel⟩
  · rw [← Bool.not_eq_true, hiff]
    rintro ⟨r, hr, -, dst, hdst, parts, hparts, hreach, -⟩
    obtain rfl := mem_singleton.mp hr
    obtain rfl := mem_singleton.mp hdst
    obtain rfl := ok.inj (hparts.symm.trans hsplit)
    exact absurd hreach (by decide +kernel)

end Karst.Datapath
