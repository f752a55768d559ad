import Karst.Control.Version

/-!
# What the version and the digest tell apart

Lists are written item after item, with neither a count before them nor, for most, a mark behind them.
Two netmaps are told apart for certain when their lists have the same lengths all through.  Otherwise an
item may be read as one of the next list, and an empty rule is not written at all.
-/

namespace Karst.Control

open Client
open List hiding Vector

/-! ### Layouts -/

theorem delimited_push : Delimited (fun b : Blob => push b.bytes) fun _ => () := by
  intro b b' r r' hshape h
  have h : push b.bytes ++ r = push b'.bytes ++ r' := h
  rw [push_eq_field b.short, push_eq_field b'.short] at h
  exact delimited_blob hshape h

theorem delimited_word : Delimited word fun _ => () := by
  refine delimited_of_length length_word ?_
  intro v w h
  have hlt (u : UInt32) : u.toNat < 256 ^ 4 := u.toNat_lt
  have h := congrArg beValue h
  rw [word, word, beValue_beBytes (hlt v), beValue_beBytes (hlt w)] at h
  exact UInt32.toNat_inj.mp h

theorem delimited_flag : Delimited flag fun _ => () := by
  refine delimited_of_length (fun b => length_word _) ?_
  intro a b h
  revert h
  revert a b
  decide

theorem delimited_seq : Delimited (fun v : UInt64 => push (beBytes 8 v.toNat)) fun _ => () := by
  refine delimited_of_length (n := 12) ?_ ?_
  · intro v
    rw [push_seq, length_field, beBytes_length]
  · intro v w h
    have hlt (u : UInt64) : u.toNat < 256 ^ 8 := u.toNat_lt
    have h : push (beBytes 8 v.toNat) = push (beBytes 8 w.toNat) := h
    have h := congrArg beValue (field_injective h)
    rw [beValue_beBytes (hlt v), beValue_beBytes (hlt w)] at h
    exact UInt64.toNat_inj.mp h

theorem delimited_port : Delimited (fun p : PortRange => push (word p.first ++ word p.last)) fun _ => () := by
  intro p p' r r' _ h
  have h : push (word p.first ++ word p.last) ++ r = push (word p'.first ++ word p'.last) ++ r' := h
  have hshort (p : PortRange) : (word p.first ++ word p.last).length < 2 ^ 32 := by
    rw [length_append, length_word, length_word]
    decide
  obtain ⟨hp, hr⟩ := field_append_inj (hshort p) (hshort p') h
  obtain ⟨hfirst, hlast⟩ := delimited_word rfl hp
  obtain ⟨hlast, -⟩ := delimited_word rfl hlast
  exact ⟨PortRange.ext hfirst hlast, hr⟩

theorem delimited_blobs : Delimited (fun l : List Blob => l.flatMap (push ·.bytes)) length :=
  delimited_push.items

def RuleView.shape (r : RuleView) : ℕ × ℕ × ℕ := (r.nodes.length, r.dstCidrs.length, r.ports.length)

theorem delimited_rules : Delimited pushRules fun rules => rules.map RuleView.shape := by
  refine Delimited.list ?_
  intro r r' t t' hshape h
  simp only [RuleView.shape, Prod.mk.injEq] at hshape
  simp only [append_assoc] at h
  obtain ⟨hnodes, h⟩ := delimited_blobs hshape.1 h
  obtain ⟨hcidrs, h⟩ := delimited_blobs hshape.2.1 h
  obtain ⟨hports, h⟩ := delimited_port.items hshape.2.2 h
  exact ⟨RuleView.ext hnodes hcidrs hports, h⟩

def PeerEntry.shape (p : PeerEntry) : ℕ × ℕ := (p.allowedIps.length, p.candidates.length)

theorem delimited_peer : Delimited pushPeer PeerEntry.shape := by
  intro p p' r r' hshape h
  simp only [PeerEntry.shape, Prod.mk.injEq] at hshape
  simp only [pushPeer, flatten_cons, flatten_nil, append_nil, append_assoc] at h
  obtain ⟨h₁, h⟩ := delimited_push rfl h
  obtain ⟨h₂, h⟩ := delimited_push rfl h
  obtain ⟨h₃, h⟩ := delimited_push rfl h
  obtain ⟨h₄, h⟩ := delimited_push rfl h
  obtain ⟨h₅, h⟩ := delimited_push rfl h
  obtain ⟨h₆, h⟩ := delimited_blobs hshape.1 h
  obtain ⟨h₇, h⟩ := delimited_blobs hshape.2 h
  exact ⟨PeerEntry.ext h₁ h₂ h₃ h₄ h₅ h₆ h₇, h⟩

theorem delimited_relay : Delimited (fun relay : Relay =>
    [push relay.address.bytes, push relay.tlsServerName.bytes, push relay.relayId.bytes,
      push relay.identityKey.bytes, push relay.region.bytes].flatten) fun _ => () := by
  intro p p' r r' _ h
  simp only [flatten_cons, flatten_nil, append_nil, append_assoc] at h
  obtain ⟨h₁, h⟩ := delimited_push rfl h
  obtain ⟨h₂, h⟩ := delimited_push rfl h
  obtain ⟨h₃, h⟩ := delimited_push rfl h
  obtain ⟨h₄, h⟩ := delimited_push rfl h
  obtain ⟨h₅, h⟩ := delimited_push rfl h
  exact ⟨Relay.ext h₁ h₂ h₃ h₄ h₅, h⟩

theorem delimited_route : Delimited (fun r : RouteOffer =>
    [push r.routeId.bytes, push r.prefixText.bytes, push r.gatewayId.bytes, word r.metric, word r.kind,
      flag r.masquerade, flag r.keepRoute, word r.role].flatten) fun _ => () := by
  intro p p' r r' _ h
  simp only [flatten_cons, flatten_nil, append_nil, append_assoc] at h
  obtain ⟨h₁, h⟩ := delimited_push rfl h
  obtain ⟨h₂, h⟩ := delimited_push rfl h
  obtain ⟨h₃, h⟩ := delimited_push rfl h
  obtain ⟨h₄, h⟩ := delimited_word rfl h
  obtain ⟨h₅, h⟩ := delimited_word rfl h
  obtain ⟨h₆, h⟩ := delimited_flag rfl h
  obtain ⟨h₇, h⟩ := delimited_flag rfl h
  obtain ⟨h₈, h⟩ := delimited_word rfl h
  exact ⟨RouteOffer.ext h₁ h₂ h₃ h₄ h₅ h₆ h₇ h₈, h⟩

theorem delimited_upstream : Delimited pushDnsUpstream fun _ => () := by
  intro p p' r r' _ h
  simp only [pushDnsUpstream, flatten_cons, flatten_nil, append_nil, append_assoc] at h
  obtain ⟨h₁, h⟩ := delimited_push rfl h
  obtain ⟨h₂, h⟩ := delimited_word rfl h
  obtain ⟨h₃, h⟩ := delimited_push rfl h
  obtain ⟨h₄, h⟩ := delimited_push rfl h
  exact ⟨DnsUpstream.ext h₁ h₂ h₃ h₄, h⟩

def DnsRoute.shape (r : DnsRoute) : ℕ × ℕ := (r.resolvers.length, r.upstreams.length)

theorem delimited_dnsRoute : Delimited (fun route : DnsRoute => push route.matchDomain.bytes
    ++ (route.resolvers.flatMap (push ·.bytes) ++ route.upstreams.flatMap pushDnsUpstream))
    DnsRoute.shape := by
  intro p p' r r' hshape h
  simp only [DnsRoute.shape, Prod.mk.injEq] at hshape
  simp only [append_assoc] at h
  obtain ⟨h₁, h⟩ := delimited_push rfl h
  obtain ⟨h₂, h⟩ := delimited_blobs hshape.1 h
  obtain ⟨h₃, h⟩ := delimited_upstream.items hshape.2 h
  exact ⟨DnsRoute.ext h₁ h₂ h₃, h⟩

theorem delimited_region : Delimited (fun entry : RegionsEntry =>
    push entry.provider.bytes ++ entry.regions.flatMap (push ·.bytes)) (·.regions.length) := by
  intro p p' r r' hshape h
  simp only [append_assoc] at h
  obtain ⟨h₁, h⟩ := delimited_push rfl h
  obtain ⟨h₂, h⟩ := delimited_blobs hshape h
  exact ⟨RegionsEntry.ext h₁ h₂, h⟩

theorem delimited_anchor : Delimited (fun entry : AnchorEntry =>
    [push entry.label.bytes, push entry.address.bytes, word entry.port].flatten) fun _ => () := by
  intro p p' r r' _ h
  simp only [flatten_cons, flatten_nil, append_nil, append_assoc] at h
  obtain ⟨h₁, h⟩ := delimited_push rfl h
  obtain ⟨h₂, h⟩ := delimited_push rfl h
  obtain ⟨h₃, h⟩ := delimited_word rfl h
  exact ⟨AnchorEntry.ext h₁ h₂ h₃, h⟩

/-! ### Netmaps -/

structure Shape where
  addresses : ℕ
  peers : List (ℕ × ℕ)
  packetFilter : List (ℕ × ℕ × ℕ)
  egressFilter : List (ℕ × ℕ × ℕ)
  sshFilter : List (ℕ × ℕ × ℕ)
  relays : ℕ
  routes : ℕ
  nameservers : ℕ
  searchDomains : ℕ
  upstreams : ℕ
  dnsRoutes : List (ℕ × ℕ)
  allowedRegions : List ℕ
  anchors : ℕ

def NetmapContent.shape (c : NetmapContent) : Shape where
  addresses := c.addresses.length
  peers := c.peers.map PeerEntry.shape
  packetFilter := c.packetFilter.map RuleView.shape
  egressFilter := c.egressFilter.map RuleView.shape
  sshFilter := c.sshFilter.map RuleView.shape
  relays := c.relays.length
  routes := c.routes.length
  nameservers := c.dns.nameservers.length
  searchDomains := c.dns.searchDomains.length
  upstreams := c.dns.upstreams.length
  dnsRoutes := c.dns.routes.map DnsRoute.shape
  allowedRegions := c.allowedRegions.map (·.regions.length)
  anchors := c.ephemeralAnchors.anchors.length

theorem flatten_cons_cancel {m : Bytes} {l l' : List Bytes} (h : (m :: l).flatten = (m :: l').flatten) :
    l.flatten = l'.flatten := append_cancel_left h

/-- **Netmaps of one shape are told apart.**  The pieces are taken off one after the other. -/
theorem netmapVersionInput_inj {c c' : NetmapContent} (hshape : c.shape = c'.shape)
    (h : netmapVersionInput c = netmapVersionInput c') : c = c' := by
  simp only [NetmapContent.shape, Shape.mk.injEq] at hshape
  obtain ⟨haddresses, hpeers, hpacket, hegress, hssh, hrelays, hroutes, hnames, hsearch, hups, hdns,
    hregions, hanchors⟩ := hshape
  obtain ⟨h₁, h⟩ := delimited_word.head rfl (flatten_cons_cancel h)
  obtain ⟨h₂, h⟩ := delimited_push.head rfl h
  obtain ⟨h₃, h⟩ := delimited_push.head rfl h
  obtain ⟨h₄, h⟩ := delimited_blobs.head haddresses h
  obtain ⟨h₅, h⟩ := delimited_peer.list.head hpeers h
  obtain ⟨h₆, h⟩ := delimited_rules.head hpacket h
  obtain ⟨h₇, h⟩ := delimited_rules.head hegress (flatten_cons_cancel h)
  obtain ⟨h₈, h⟩ := delimited_flag.head rfl (flatten_cons_cancel h)
  obtain ⟨h₉, h⟩ := delimited_rules.head hssh h
  obtain ⟨h₁₀, h⟩ := delimited_relay.items.head hrelays (flatten_cons_cancel h)
  obtain ⟨h₁₁, h⟩ := delimited_route.items.head hroutes (flatten_cons_cancel h)
  obtain ⟨hzone, h⟩ := delimited_push.head rfl (flatten_cons_cancel h)
  obtain ⟨hmagic, h⟩ := delimited_flag.head rfl h
  obtain ⟨hnames, h⟩ := delimited_blobs.head hnames h
  obtain ⟨hsearch, h⟩ := delimited_blobs.head hsearch h
  obtain ⟨hups, h⟩ := delimited_upstream.items.head hups h
  obtain ⟨hdns, h⟩ := delimited_dnsRoute.list.head hdns h
  obtain ⟨hhash, h⟩ := delimited_push.head rfl (flatten_cons_cancel h)
  obtain ⟨hseq, h⟩ := delimited_seq.head rfl h
  obtain ⟨hmode, h⟩ := delimited_word.head rfl h
  obtain ⟨h₁₂, h⟩ := delimited_region.list.head hregions (flatten_cons_cancel h)
  obtain ⟨hanchors, h⟩ := delimited_anchor.items.head hanchors (flatten_cons_cancel h)
  obtain ⟨hperiod, h⟩ := delimited_word.head rfl h
  obtain ⟨hduty, -⟩ := delimited_word.head rfl h
  exact NetmapContent.ext h₁ h₂ h₃ h₄ h₅ h₆ h₇ h₈ h₉ h₁₀ h₁₁
    (DnsConfig.ext hnames hsearch hdns hzone hmagic hups) (BedrockHead.ext hhash hseq hmode) h₁₂
    (EphemeralAnchors.ext hanchors hperiod hduty)

/-! ### Peers -/

def PeerEntry.scalars (p : PeerEntry) : List Blob :=
  [p.nodeId, p.kemPublicKey, p.dnsName, p.endpoint, p.homeRelay]

theorem peerDigestInput_eq (p : PeerEntry) (epoch : UInt32) :
    Client.peerDigestInput p epoch = ascii "karst-peer-digest-v1"
      ++ fields (word epoch :: (p.scalars ++ (p.allowedIps ++ p.candidates)).map Blob.bytes) := by
  have hfields (l : List Blob) : l.flatMap (field ·.bytes) = fields (l.map Blob.bytes) := by
    rw [fields, flatMap_map]
  simp only [Client.peerDigestInput, pushPeer, flatten_cons, flatten_nil, append_nil, push_word,
    push_bytes, Server.writeField, hfields, PeerEntry.scalars, map_append, fields_cons, fields_append,
    map_cons, map_nil, fields_nil, append_assoc]

theorem peerDigestInput_iff {p p' : PeerEntry} {epoch epoch' : UInt32} :
    Client.peerDigestInput p epoch = Client.peerDigestInput p' epoch' ↔ epoch = epoch'
      ∧ p.scalars = p'.scalars ∧ p.allowedIps ++ p.candidates = p'.allowedIps ++ p'.candidates := by
  rw [peerDigestInput_eq, peerDigestInput_eq]
  constructor
  · intro h
    have hshort (w : UInt32) (l : List Blob) : ∀ b ∈ word w :: l.map Blob.bytes, b.length < 2 ^ 32 := by
      intro b hb
      rcases mem_cons.mp hb with rfl | hb
      · rw [length_word]
        decide
      · obtain ⟨x, -, rfl⟩ := mem_map.mp hb
        exact x.short
    have h := fields_inj (hshort _ _) (hshort _ _) (append_cancel_left h)
    obtain ⟨hword, hrest⟩ := cons.inj h
    have hrest := map_injective_iff.mpr (fun _ _ => Blob.ext) hrest
    obtain ⟨hscalars, hlists⟩ := append_inj hrest rfl
    have hepoch : word epoch ++ [] = word epoch' ++ [] := by rw [hword]
    exact ⟨(delimited_word rfl hepoch).1, hscalars, hlists⟩
  · intro ⟨hepoch, hscalars, hlists⟩
    rw [hepoch, hscalars, hlists]

/-! ### Separation -/

/-- **What the version and the digest tell apart**: netmaps of one shape, and peers up to where the
addresses end and the candidates begin. -/
theorem version_and_digest_separate (r : NetmapResponse) (p : NetmapPeer) (epoch : UInt32) :
    (∃ r' : NetmapResponse, r'.content ≠ r.content
      ∧ Server.netmapVersionInput r' = Server.netmapVersionInput r)
    ∧ (∀ r' : NetmapResponse, r.content.shape = r'.content.shape →
      (Server.netmapVersionInput r = Server.netmapVersionInput r' ↔ r.content = r'.content))
    ∧ ∀ (p' : NetmapPeer) (epoch' : UInt32),
      Server.peerDigestInput p epoch = Server.peerDigestInput p' epoch' ↔ epoch = epoch'
        ∧ p.entry.scalars = p'.entry.scalars
        ∧ p.allowedIps ++ p.candidates = p'.allowedIps ++ p'.candidates := by
  refine ⟨?_, ?_, ?_⟩
  · -- a rule without nodes, destinations and ports writes nothing
    refine ⟨{ r with packetFilter := r.packetFilter ++ [⟨[], [], []⟩] }, ?_,
      by simp [Server.netmapVersionInput, Server.writePorts]⟩
    intro h
    have hlen := congrArg (·.packetFilter.length) h
    simp [NetmapResponse.content] at hlen
  · intro r' hshape
    rw [Server.netmapVersionInput_eq, Server.netmapVersionInput_eq]
    exact ⟨netmapVersionInput_inj hshape, fun h => by rw [h]⟩
  · intro p' epoch'
    rw [Server.peerDigestInput_eq, Server.peerDigestInput_eq]
    exact peerDigestInput_iff

def allowing (regions : List RegionsEntry) : NetmapResponse where
  gatewayIngressSchema := 0
  version := 0
  pskEpoch := 1
  nodeId := .of (ascii "self")
  addresses := [.of (ascii "100.64.0.1/16")]
  dnsName := .of (ascii "laptop")
  peers := []
  packetFilter := []
  egressFilter := []
  sshFilter := []
  sshFilterPresent := false
  relays := []
  routes := []
  dnsConfig := none
  bedrockHead := none
  allowedRegions := some regions
  ephemeralAnchors := none
  delta := false
  removedPeers := []
  unchanged := false

def dualStack : NetmapPeer where
  nodeId := .of (ascii "peer")
  allowedIps := [.of (ascii "100.64.0.9/32"), .of (ascii "fd00::9/128")]
  dnsName := .of (ascii "nas")
  endpoint := .empty
  homeRelay := .empty
  kemPublicKey := .empty
  psk := .empty
  pskPrevious := .empty
  discoKey := .empty
  candidates := []

def singleStack : NetmapPeer :=
  { dualStack with
    allowedIps := [.of (ascii "100.64.0.9/32")], candidates := [.of (ascii "fd00::9/128")] }

def twoProviders : List RegionsEntry :=
  [⟨.of (ascii "aws"), [.of (ascii "eu")]⟩, ⟨.of (ascii "gcp"), [.of (ascii "us")]⟩]

def oneProvider : List RegionsEntry :=
  [⟨.of (ascii "aws"), [.of (ascii "eu"), .of (ascii "gcp"), .of (ascii "us")]⟩]

theorem changed_netmap_same_version : (allowing twoProviders).content ≠ (allowing oneProvider).content
      ∧ Server.netmapVersionInput (allowing twoProviders) = Server.netmapVersionInput (allowing oneProvider)
      ∧ dualStack.entry ≠ singleStack.entry
      ∧ Server.peerDigestInput dualStack 1 = Server.peerDigestInput singleStack 1 := by
  decide +kernel

end Karst.Control
