import Karst.Control.Messages

/-!
# The netmap version and the peer digest

What `NetmapVersion` and `PeerDigest` (`control/netmap.go`) feed to SHA-256, and what `netmap_version` and
`peer_digest` (`karst-control-client/src/netmap.rs`) do.  Both are the leading eight bytes of the hash, a
parameter here.
-/

namespace Karst.Control

def word (w : UInt32) : Bytes := beBytes 4 w.toNat

def flag (b : Bool) : Bytes := word (if b then 1 else 0)

/-- Zero stands for no netmap and is not a version. -/
def nonzero (v : UInt64) : UInt64 := if v = 0 then 1 else v

/-! ### The server -/

namespace Server

def writeField (f : Blob) : Bytes := field f.bytes

def writePorts (ports : List PortRange) : Bytes := ports.flatMap fun p => field (word p.first ++ word p.last)

def writeDNSUpstream (u : DnsUpstream) : Bytes :=
  [writeField u.address, word u.transport, writeField u.tlsServerName, writeField u.spkiPin].flatten

/-- What the version and the digest write of a peer. -/
def writePeer (p : NetmapPeer) : Bytes :=
  [writeField p.nodeId, writeField p.kemPublicKey, writeField p.dnsName, writeField p.endpoint,
    writeField p.homeRelay, p.allowedIps.flatMap writeField, p.candidates.flatMap writeField].flatten

def peerDigestInput (p : NetmapPeer) (epoch : UInt32) : Bytes :=
  [ascii "karst-peer-digest-v1", field (word epoch), writePeer p].flatten

def peerDigest (hash64 : Bytes → UInt64) (p : NetmapPeer) (epoch : UInt32) : UInt64 :=
  hash64 (peerDigestInput p epoch)

def writeRoute (r : RouteOffer) : Bytes :=
  [writeField r.routeId, writeField r.prefixText, writeField r.gatewayId, word r.metric, word r.kind,
    flag r.masquerade, flag r.keepRoute, word r.role].flatten

def netmapVersionInput (r : NetmapResponse) : Bytes :=
  let dns := r.dnsConfig.getD .zero
  let head := r.bedrockHead.getD .zero
  let anchors := r.ephemeralAnchors.getD .zero
  [ascii "karst-netmap-version-v1",
    word r.pskEpoch, writeField r.nodeId, writeField r.dnsName, r.addresses.flatMap writeField,
    r.peers.flatMap writePeer, r.packetFilter.flatMap fun rule =>
      rule.srcs.flatMap writeField ++ (rule.dstCidrs.flatMap writeField ++ writePorts rule.ports),
    field (ascii "karst-egress-filter"),
    r.egressFilter.flatMap fun rule =>
      rule.dsts.flatMap writeField ++ (rule.dstCidrs.flatMap writeField ++ writePorts rule.ports),
    field (ascii "karst-ssh-filter"),
    flag r.sshFilterPresent,
    r.sshFilter.flatMap fun rule => rule.srcs.flatMap writeField ++ writePorts rule.ports,
    field (ascii "karst-relays"),
    r.relays.flatMap fun relay =>
      [writeField relay.address, writeField relay.tlsServerName, writeField relay.relayId,
        writeField relay.identityKey, writeField relay.region].flatten,
    field (ascii "karst-routes"),
    r.routes.flatMap writeRoute,
    field (ascii "karst-dns"),
    writeField dns.zone,
    flag dns.magicDns,
    dns.nameservers.flatMap writeField,
    dns.searchDomains.flatMap writeField,
    dns.upstreams.flatMap writeDNSUpstream,
    dns.routes.flatMap fun route =>
      writeField route.matchDomain
        ++ (route.resolvers.flatMap writeField ++ route.upstreams.flatMap writeDNSUpstream),
    field (ascii "karst-bedrock"),
    writeField head.hash,
    field (beBytes 8 head.seq.toNat),
    word head.mode,
    field (ascii "karst-allowed-regions"),
    (r.allowedRegions.getD []).flatMap fun entry =>
      writeField entry.provider ++ entry.regions.flatMap writeField,
    field (ascii "karst-ephemeral-anchors"),
    anchors.anchors.flatMap fun entry =>
      [writeField entry.label, writeField entry.address, word entry.port].flatten,
    word anchors.windowPeriodSeconds,
    word anchors.dutyCycleSeconds].flatten

def netmapVersion (hash64 : Bytes → UInt64) (r : NetmapResponse) : UInt64 :=
  nonzero (hash64 (netmapVersionInput r))

end Server

/-! ### The node -/

namespace Client

/-- A length that does not fit is written as the greatest that does. -/
def push (b : Bytes) : Bytes := beBytes 4 (min b.length (2 ^ 32 - 1)) ++ b

def pushRules (rules : List RuleView) : Bytes :=
  rules.flatMap fun r =>
    r.nodes.flatMap (push ·.bytes) ++ (r.dstCidrs.flatMap (push ·.bytes)
      ++ r.ports.flatMap fun p => push (word p.first ++ word p.last))

def pushDnsUpstream (u : DnsUpstream) : Bytes :=
  [push u.address.bytes, word u.transport, push u.tlsServerName.bytes, push u.spkiPin.bytes].flatten

def pushPeer (p : PeerEntry) : Bytes :=
  [push p.nodeId.bytes, push p.kemPublicKey.bytes, push p.dnsName.bytes, push p.endpoint.bytes,
    push p.homeRelay.bytes, p.allowedIps.flatMap (push ·.bytes), p.candidates.flatMap (push ·.bytes)].flatten

def peerDigestInput (p : PeerEntry) (epoch : UInt32) : Bytes :=
  [ascii "karst-peer-digest-v1", push (word epoch), pushPeer p].flatten

def peerDigest (hash64 : Bytes → UInt64) (p : PeerEntry) (epoch : UInt32) : UInt64 :=
  hash64 (peerDigestInput p epoch)

def netmapVersionInput (c : NetmapContent) : Bytes :=
  [ascii "karst-netmap-version-v1",
    word c.pskEpoch, push c.nodeId.bytes, push c.dnsName.bytes, c.addresses.flatMap (push ·.bytes),
    c.peers.flatMap pushPeer, pushRules c.packetFilter, push (ascii "karst-egress-filter"),
    pushRules c.egressFilter, push (ascii "karst-ssh-filter"),
    flag c.sshFilterPresent, pushRules c.sshFilter, push (ascii "karst-relays"),
    c.relays.flatMap fun relay =>
      [push relay.address.bytes, push relay.tlsServerName.bytes, push relay.relayId.bytes,
        push relay.identityKey.bytes, push relay.region.bytes].flatten,
    push (ascii "karst-routes"),
    c.routes.flatMap fun r =>
      [push r.routeId.bytes, push r.prefixText.bytes, push r.gatewayId.bytes, word r.metric, word r.kind,
        flag r.masquerade, flag r.keepRoute, word r.role].flatten,
    push (ascii "karst-dns"),
    push c.dns.zone.bytes,
    flag c.dns.magicDns,
    c.dns.nameservers.flatMap (push ·.bytes),
    c.dns.searchDomains.flatMap (push ·.bytes),
    c.dns.upstreams.flatMap pushDnsUpstream,
    c.dns.routes.flatMap fun route =>
      push route.matchDomain.bytes
        ++ (route.resolvers.flatMap (push ·.bytes) ++ route.upstreams.flatMap pushDnsUpstream),
    push (ascii "karst-bedrock"),
    push c.bedrockHead.hash.bytes,
    push (beBytes 8 c.bedrockHead.seq.toNat),
    word c.bedrockHead.mode,
    push (ascii "karst-allowed-regions"),
    c.allowedRegions.flatMap fun entry =>
      push entry.provider.bytes ++ entry.regions.flatMap (push ·.bytes),
    push (ascii "karst-ephemeral-anchors"),
    c.ephemeralAnchors.anchors.flatMap fun entry =>
      [push entry.label.bytes, push entry.address.bytes, word entry.port].flatten,
    word c.ephemeralAnchors.windowPeriodSeconds,
    word c.ephemeralAnchors.dutyCycleSeconds].flatten

def netmapVersion (hash64 : Bytes → UInt64) (c : NetmapContent) : UInt64 :=
  nonzero (hash64 (netmapVersionInput c))

/-! ### Both write the same -/

theorem push_eq_field {b : Bytes} (h : b.length < 2 ^ 32) : push b = field b := by
  rw [push, field, Nat.min_eq_left (by omega)]

theorem push_bytes (b : Blob) : push b.bytes = Server.writeField b :=
  push_eq_field b.short

theorem length_word (w : UInt32) : (word w).length = 4 := beBytes_length 4 _

theorem push_word (w : UInt32) : push (word w) = field (word w) :=
  push_eq_field (by rw [length_word]; decide)

theorem push_words (v w : UInt32) : push (word v ++ word w) = field (word v ++ word w) :=
  push_eq_field (by rw [List.length_append, length_word, length_word]; decide)

theorem push_seq (n : ℕ) : push (beBytes 8 n) = field (beBytes 8 n) :=
  push_eq_field (by rw [beBytes_length]; decide)

theorem pushDnsUpstream_fun : pushDnsUpstream = Server.writeDNSUpstream := by
  funext u
  simp only [pushDnsUpstream, Server.writeDNSUpstream, push_bytes]

end Client

theorem Server.writePeer_fun : Server.writePeer = fun p => Client.pushPeer p.entry := by
  funext p
  simp only [Server.writePeer, Client.pushPeer, NetmapPeer.entry, Client.push_bytes]

theorem Server.peerDigestInput_eq (p : NetmapPeer) (epoch : UInt32) :
    Server.peerDigestInput p epoch = Client.peerDigestInput p.entry epoch := by
  rw [Server.peerDigestInput, Client.peerDigestInput, Server.writePeer_fun, Client.push_word]

theorem Server.netmapVersionInput_eq (r : NetmapResponse) :
    Server.netmapVersionInput r = Client.netmapVersionInput r.content := by
  have hmarker (s : String) (h : (ascii s).length < 2 ^ 32) :
      Client.push (ascii s) = field (ascii s) := Client.push_eq_field h
  simp (disch := decide) only [Server.netmapVersionInput, Client.netmapVersionInput, NetmapResponse.content,
    Client.pushRules, Client.push_bytes, Client.push_words, Client.push_seq,
    Client.pushDnsUpstream_fun, List.flatMap_map, Server.writePeer_fun, FilterRule.view, EgressRule.view,
    FilterRule.sshView, List.flatMap_nil, List.nil_append, Server.writePorts, hmarker]
  rfl

end Karst.Control
