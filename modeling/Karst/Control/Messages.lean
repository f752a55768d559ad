import Karst.Foundations.Fields

/-!
# Control messages

`karst_control.proto`, as far as the netmap goes.  `string` and `bytes` fields are `Blob`s: a message has
at most 2 GiB.  Enumerations are the numbers they are sent as, and an absent message is `none`.

`NetmapContent` is the netmap as the version hash of `karst_control_client::netmap` sees it, and
`NetmapResponse.content` what a response holds of it.
-/

namespace Karst.Control

@[ext] structure PortRange where
  first : UInt32
  last : UInt32
  deriving DecidableEq

@[ext] structure FilterRule where
  srcs : List Blob
  dstCidrs : List Blob
  ports : List PortRange
  deriving DecidableEq

@[ext] structure EgressRule where
  dsts : List Blob
  dstCidrs : List Blob
  ports : List PortRange
  deriving DecidableEq

@[ext] structure NetmapPeer where
  nodeId : Blob
  allowedIps : List Blob
  dnsName : Blob
  endpoint : Blob
  homeRelay : Blob
  kemPublicKey : Blob
  psk : Blob
  pskPrevious : Blob
  discoKey : Blob
  candidates : List Blob

@[ext] structure Relay where
  address : Blob
  tlsServerName : Blob
  relayId : Blob
  identityKey : Blob
  region : Blob
  deriving DecidableEq

@[ext] structure RouteOffer where
  routeId : Blob
  prefixText : Blob
  gatewayId : Blob
  metric : UInt32
  kind : UInt32
  masquerade : Bool
  keepRoute : Bool
  role : UInt32
  deriving DecidableEq

@[ext] structure DnsUpstream where
  address : Blob
  transport : UInt32
  tlsServerName : Blob
  spkiPin : Blob
  deriving DecidableEq

@[ext] structure DnsRoute where
  matchDomain : Blob
  resolvers : List Blob
  upstreams : List DnsUpstream
  deriving DecidableEq

@[ext] structure DnsConfig where
  nameservers : List Blob
  searchDomains : List Blob
  routes : List DnsRoute
  zone : Blob
  magicDns : Bool
  upstreams : List DnsUpstream
  deriving DecidableEq

def DnsConfig.zero : DnsConfig := ⟨[], [], [], .empty, false, []⟩

@[ext] structure BedrockHead where
  hash : Blob
  seq : UInt64
  mode : UInt32
  deriving DecidableEq

def BedrockHead.zero : BedrockHead := ⟨.empty, 0, 0⟩

@[ext] structure RegionsEntry where
  provider : Blob
  regions : List Blob
  deriving DecidableEq

@[ext] structure AnchorEntry where
  label : Blob
  address : Blob
  port : UInt32
  deriving DecidableEq

@[ext] structure EphemeralAnchors where
  anchors : List AnchorEntry
  windowPeriodSeconds : UInt32
  dutyCycleSeconds : UInt32
  deriving DecidableEq

def EphemeralAnchors.zero : EphemeralAnchors := ⟨[], 0, 0⟩

/-- `KarstNetmapResponse`, without what tells of compliance. -/
@[ext] structure NetmapResponse where
  gatewayIngressSchema : UInt32
  version : UInt64
  pskEpoch : UInt32
  nodeId : Blob
  addresses : List Blob
  dnsName : Blob
  peers : List NetmapPeer
  packetFilter : List FilterRule
  egressFilter : List EgressRule
  sshFilter : List FilterRule
  sshFilterPresent : Bool
  relays : List Relay
  routes : List RouteOffer
  dnsConfig : Option DnsConfig
  bedrockHead : Option BedrockHead
  allowedRegions : Option (List RegionsEntry)
  ephemeralAnchors : Option EphemeralAnchors
  delta : Bool
  removedPeers : List Blob
  unchanged : Bool

@[ext] structure PeerDigest where
  nodeId : Blob
  digest : UInt64

/-! ### What the hashes cover -/

@[ext] structure PeerEntry where
  nodeId : Blob
  kemPublicKey : Blob
  dnsName : Blob
  endpoint : Blob
  homeRelay : Blob
  allowedIps : List Blob
  candidates : List Blob
  deriving DecidableEq

def NetmapPeer.entry (p : NetmapPeer) : PeerEntry :=
  ⟨p.nodeId, p.kemPublicKey, p.dnsName, p.endpoint, p.homeRelay, p.allowedIps, p.candidates⟩

@[ext] structure RuleView where
  nodes : List Blob
  dstCidrs : List Blob
  ports : List PortRange
  deriving DecidableEq

def FilterRule.view (r : FilterRule) : RuleView := ⟨r.srcs, r.dstCidrs, r.ports⟩

def EgressRule.view (r : EgressRule) : RuleView := ⟨r.dsts, r.dstCidrs, r.ports⟩

def FilterRule.sshView (r : FilterRule) : RuleView := ⟨r.srcs, [], r.ports⟩

@[ext] structure NetmapContent where
  pskEpoch : UInt32
  nodeId : Blob
  dnsName : Blob
  addresses : List Blob
  peers : List PeerEntry
  packetFilter : List RuleView
  egressFilter : List RuleView
  sshFilterPresent : Bool
  sshFilter : List RuleView
  relays : List Relay
  routes : List RouteOffer
  dns : DnsConfig
  bedrockHead : BedrockHead
  allowedRegions : List RegionsEntry
  ephemeralAnchors : EphemeralAnchors
  deriving DecidableEq

/-- What a response holds of it; an absent message counts as an empty one. -/
def NetmapResponse.content (r : NetmapResponse) : NetmapContent where
  pskEpoch := r.pskEpoch
  nodeId := r.nodeId
  dnsName := r.dnsName
  addresses := r.addresses
  peers := r.peers.map NetmapPeer.entry
  packetFilter := r.packetFilter.map FilterRule.view
  egressFilter := r.egressFilter.map EgressRule.view
  sshFilterPresent := r.sshFilterPresent
  sshFilter := r.sshFilter.map FilterRule.sshView
  relays := r.relays
  routes := r.routes
  dns := r.dnsConfig.getD .zero
  bedrockHead := r.bedrockHead.getD .zero
  allowedRegions := r.allowedRegions.getD []
  ephemeralAnchors := r.ephemeralAnchors.getD .zero

end Karst.Control
