import Karst.Foundations.KeyedLists
import Karst.Control.RouteOffers

/-!
# The node's netmap

`karstd/src/netmap.rs`: the view of the network a node assembles from the server's responses.  `apply`
changes the view in place and stops at the first thing it cannot decode, so it is given here with the view
it leaves behind, also where it fails.
-/

namespace Karst.Control

open Net Except NetmapPeer

def PSK_LEN : ℕ := 32
def RELAY_ID_LEN : ℕ := 32
def RELAY_IDENTITY_KEY_LEN : ℕ := 2592

/-! ### Decoding -/

inductive RelayError where
  | address
  | tlsServerName
  | relayId
  | identityKey
  | mismatch

inductive Error where
  | gatewayIngressSchema (schema : UInt32)
  | pskLength (peer : Blob) (len : ℕ)
  | discoKeyLength (peer : Blob) (len : ℕ)
  | relay (e : RelayError)
  | route (e : RouteError)
  | versionMismatch (server computed : UInt64)

def Error.isMismatch : Error → Bool
  | .versionMismatch _ _ => true
  | _ => false

inductive Transport where
  | plain
  | dot

def Transport.fromWire (v : UInt32) : Transport := if v = 1 then .dot else .plain

def Transport.toWire : Transport → UInt32
  | .plain => 0
  | .dot => 1

inductive Mode where
  | off
  | advisory
  | enforcing

def Mode.fromWire (v : UInt32) : Mode := if v = 1 then .advisory else if v = 2 then .enforcing else .off

def Mode.toWire : Mode → UInt32
  | .off => 0
  | .advisory => 1
  | .enforcing => 2

def DnsUpstream.fromWire (u : DnsUpstream) : DnsUpstream :=
  { u with transport := (Transport.fromWire u.transport).toWire }

def DnsRoute.fromWire (r : DnsRoute) : DnsRoute :=
  { r with upstreams := r.upstreams.map DnsUpstream.fromWire }

def DnsConfig.fromWire : Option DnsConfig → DnsConfig
  | none => .zero
  | some c => { c with
      routes := c.routes.map DnsRoute.fromWire
      upstreams := c.upstreams.map DnsUpstream.fromWire }

def BedrockHead.fromWire : Option BedrockHead → BedrockHead
  | none => .zero
  | some h => { h with mode := (Mode.fromWire h.mode).toWire }

abbrev AllowedRegions := KeyedList RegionsEntry.provider

def AllowedRegions.fromWire (msg : Option (List RegionsEntry)) : AllowedRegions :=
  KeyedList.empty.putAll (msg.getD [])

def AnchorEntry.fromWire (a : AnchorEntry) : AnchorEntry := { a with port := a.port.toUInt16.toUInt32 }

def EphemeralAnchors.fromWire : Option EphemeralAnchors → EphemeralAnchors
  | none => .zero
  | some m => { m with anchors := m.anchors.map AnchorEntry.fromWire }

def isAsciiWhitespace (b : UInt8) : Bool := b == 0x20 || b == 0x09 || b == 0x0A || b == 0x0C || b == 0x0D

def Relay.fromWire (X : Externals) (r : Relay) : Except RelayError Relay :=
  if X.isSocketAddr r.address.bytes = false then .error .address
  else if r.tlsServerName.bytes = [] ∨ r.tlsServerName.bytes.any (0x80 ≤ ·) = true
      ∨ r.tlsServerName.bytes.any isAsciiWhitespace = true then .error .tlsServerName
  else if r.relayId.bytes.length ≠ RELAY_ID_LEN then .error .relayId
  else if r.identityKey.bytes.length ≠ RELAY_IDENTITY_KEY_LEN then .error .identityKey
  else if r.relayId.bytes ≠ X.sha256 (ascii "karst-relay-id-v1" ++ r.identityKey.bytes) then
    .error .mismatch
  else .ok r

def decodeRelays (X : Externals) : List Relay → Except RelayError (List Relay)
  | [] => .ok []
  | r :: rs => do
    let relay ← Relay.fromWire X r
    let relays ← decodeRelays X rs
    return relay :: relays

/-- A key of the pair: 32 bytes that are neither printed nor hashed. -/
abbrev PairKey := Vector UInt8 32

@[ext] structure Peer where
  nodeId : Blob
  allowedIps : List Blob
  dnsName : Blob
  endpoint : Blob
  homeRelay : Blob
  kemPublicKey : Blob
  psk : Option PairKey
  pskPrevious : Option PairKey
  discoKey : Option PairKey
  candidates : List Blob
  deriving DecidableEq

def optionalKey (err : Blob → ℕ → Error) (bytes nodeId : Blob) : Except Error (Option PairKey) :=
  if bytes.bytes = [] then .ok none
  else if bytes.bytes.length ≠ PSK_LEN then .error (err nodeId bytes.bytes.length)
  else .ok (some (fit 32 bytes.bytes))

def optionalPsk : Blob → Blob → Except Error (Option PairKey) := optionalKey .pskLength

def optionalDiscoKey : Blob → Blob → Except Error (Option PairKey) := optionalKey .discoKeyLength

def Peer.fromWire (p : NetmapPeer) : Except Error Peer := do
  let psk ← optionalPsk p.psk p.nodeId
  let pskPrevious ← optionalPsk p.pskPrevious p.nodeId
  let discoKey ← optionalDiscoKey p.discoKey p.nodeId
  return ⟨p.nodeId, p.allowedIps, p.dnsName, p.endpoint, p.homeRelay, p.kemPublicKey, psk, pskPrevious,
    discoKey, p.candidates⟩

def Peer.entry (p : Peer) : PeerEntry :=
  ⟨p.nodeId, p.kemPublicKey, p.dnsName, p.endpoint, p.homeRelay, p.allowedIps, p.candidates⟩

def Peer.digest (X : Externals) (p : Peer) (epoch : UInt32) : UInt64 :=
  Client.peerDigest X.hash64 p.entry epoch

/-! ### The view -/

abbrev Peers := KeyedList Peer.nodeId

@[ext] structure Netmap where
  version : UInt64
  pskEpoch : UInt32
  nodeId : Blob
  addresses : List Blob
  dnsName : Blob
  dnsConfig : DnsConfig
  bedrockHead : BedrockHead
  allowedRegions : AllowedRegions
  ephemeralAnchors : EphemeralAnchors
  packetFilter : List FilterRule
  egressFilter : List EgressRule
  sshFilter : List FilterRule
  sshFilterPresent : Bool
  relays : List Relay
  routes : List Offer
  peers : Peers
  deriving DecidableEq

def Netmap.new : Netmap where
  version := 0
  pskEpoch := 0
  nodeId := .empty
  addresses := []
  dnsName := .empty
  dnsConfig := .zero
  bedrockHead := .zero
  allowedRegions := .empty
  ephemeralAnchors := .zero
  packetFilter := []
  egressFilter := []
  sshFilter := []
  sshFilterPresent := false
  relays := []
  routes := []
  peers := .empty

def Netmap.reset (_ : Netmap) : Netmap := .new

def Netmap.holds (X : Externals) (m : Netmap) : List PeerDigest :=
  m.peers.toList.map fun p => ⟨p.nodeId, p.digest X m.pskEpoch⟩

def Netmap.content (m : Netmap) : NetmapContent where
  pskEpoch := m.pskEpoch
  nodeId := m.nodeId
  dnsName := m.dnsName
  addresses := m.addresses
  peers := m.peers.toList.map Peer.entry
  packetFilter := m.packetFilter.map FilterRule.view
  egressFilter := m.egressFilter.map EgressRule.view
  sshFilterPresent := m.sshFilterPresent
  sshFilter := m.sshFilter.map FilterRule.view
  relays := m.relays
  routes := m.routes.map Offer.view
  dns := m.dnsConfig
  bedrockHead := m.bedrockHead
  allowedRegions := m.allowedRegions.toList
  ephemeralAnchors := m.ephemeralAnchors

def Netmap.contentVersion (X : Externals) (m : Netmap) : UInt64 :=
  Client.netmapVersion X.hash64 m.content

/-! ### Applying a response -/

inductive Outcome where
  | unchanged
  | replaced (peers : ℕ)
  | delta (changed removed : ℕ)

/-- What the call returns, and the view it leaves. -/
abbrev Attempt := Netmap × Except Error Outcome

/-- Rules that are scoped by networks need a schema the node knows. -/
def NetmapResponse.refused (r : NetmapResponse) : Bool :=
  r.gatewayIngressSchema > 1
    || (r.packetFilter.any (fun rule => !rule.dstCidrs.isEmpty) && r.gatewayIngressSchema != 1)
    || r.sshFilter.any fun rule => !rule.dstCidrs.isEmpty

/-- The fields that are assigned before anything can fail. -/
def Netmap.assign (m : Netmap) (r : NetmapResponse) : Netmap :=
  { m with
    pskEpoch := r.pskEpoch
    nodeId := r.nodeId
    addresses := r.addresses
    dnsName := r.dnsName
    dnsConfig := DnsConfig.fromWire r.dnsConfig
    bedrockHead := BedrockHead.fromWire r.bedrockHead
    allowedRegions := AllowedRegions.fromWire r.allowedRegions
    ephemeralAnchors := EphemeralAnchors.fromWire r.ephemeralAnchors
    packetFilter := r.packetFilter
    egressFilter := r.egressFilter
    sshFilter := r.sshFilter
    sshFilterPresent := r.sshFilterPresent }

def Netmap.setRelays (m : Netmap) (relays : List Relay) : Netmap := { m with relays }

def Netmap.setRoutes (m : Netmap) (routes : List Offer) : Netmap := { m with routes }

def Netmap.setPeers (m : Netmap) (peers : Peers) : Netmap := { m with peers }

/-- Insert one peer after the other; those before an error stay. -/
def insertPeers (t : Peers) : List NetmapPeer → Peers × Except Error Unit
  | [] => (t, .ok ())
  | p :: ps =>
    match Peer.fromWire p with
    | .error e => (t, .error e)
    | .ok peer => insertPeers (t.put peer) ps

def removePeers (t : Peers) : List Blob → Peers × ℕ
  | [] => (t, 0)
  | id :: ids =>
    let rest := removePeers (t.remove id) ids
    (rest.1, rest.2 + if (t.get? id).isSome then 1 else 0)

def Netmap.applyPeers (m : Netmap) (r : NetmapResponse) : Attempt :=
  if r.delta then
    match insertPeers m.peers r.peers with
    | (peers, .error e) => (m.setPeers peers, .error e)
    | (peers, .ok _) =>
      (m.setPeers (removePeers peers r.removedPeers).1,
        .ok (.delta r.peers.length (removePeers peers r.removedPeers).2))
  else
    match insertPeers .empty r.peers with
    | (_, .error e) => (m, .error e)
    | (peers, .ok _) => (m.setPeers peers, .ok (.replaced peers.toList.length))

def Netmap.checkVersion (X : Externals) (m : Netmap) (r : NetmapResponse) (outcome : Outcome) : Attempt :=
  if m.contentVersion X ≠ r.version then (m, .error (.versionMismatch r.version (m.contentVersion X)))
  else ({ m with version := r.version }, .ok outcome)

def Netmap.finish (X : Externals) (m : Netmap) (r : NetmapResponse) : Attempt :=
  match m.applyPeers r with
  | (m, .error e) => (m, .error e)
  | (m, .ok outcome) => m.checkVersion X r outcome

def Netmap.apply (X : Externals) (m : Netmap) (r : NetmapResponse) : Attempt :=
  if r.refused then (m, .error (.gatewayIngressSchema r.gatewayIngressSchema))
  else if r.unchanged then (m, .ok .unchanged)
  else
    match decodeRelays X r.relays with
    | .error e => (m.assign r, .error (.relay e))
    | .ok relays =>
      match parseAll X r.routes (m.assign r).nodeId with
      | .error e => ((m.assign r).setRelays relays, .error (.route e))
      | .ok routes => (((m.assign r).setRelays relays).setRoutes routes).finish X r

/-! ### Keys -/

/-- No key, or one of the right length. -/
def fitsKey (b : Blob) : Bool := b.bytes.isEmpty || b.bytes.length == PSK_LEN

def pairKey (b : Blob) : Option PairKey := if b.bytes = [] then none else some (fit 32 b.bytes)

def NetmapPeer.keyed (p : NetmapPeer) : Bool := fitsKey p.psk && fitsKey p.pskPrevious && fitsKey p.discoKey

def NetmapPeer.peer (p : NetmapPeer) : Peer :=
  ⟨p.nodeId, p.allowedIps, p.dnsName, p.endpoint, p.homeRelay, p.kemPublicKey, pairKey p.psk,
    pairKey p.pskPrevious, pairKey p.discoKey, p.candidates⟩

section

variable {p : NetmapPeer} {ps : List NetmapPeer} {t : Peers}

theorem optionalKey_eq_ok {err : Blob → ℕ → Error} {b id : Blob} {k : Option PairKey} :
    optionalKey err b id = .ok k ↔ fitsKey b = true ∧ k = pairKey b := by
  by_cases hb : b.bytes = []
  · simp [optionalKey, fitsKey, pairKey, hb, eq_comm]
  · by_cases hlen : b.bytes.length = PSK_LEN
    · simp [optionalKey, fitsKey, pairKey, hb, hlen, eq_comm]
    · simp [optionalKey, fitsKey, hb, hlen]

theorem Peer.fromWire_eq_ok {q : Peer} : Peer.fromWire p = .ok q ↔ p.keyed = true ∧ q = p.peer := by
  simp only [Peer.fromWire, optionalPsk, optionalDiscoKey, bind_eq_ok, optionalKey_eq_ok,
    keyed, Bool.and_eq_true]
  constructor
  · rintro ⟨_, ⟨h₁, rfl⟩, _, ⟨h₂, rfl⟩, _, ⟨h₃, rfl⟩, h⟩
    exact ⟨⟨⟨h₁, h₂⟩, h₃⟩, (ok.inj h).symm⟩
  · rintro ⟨⟨⟨h₁, h₂⟩, h₃⟩, rfl⟩
    exact ⟨_, ⟨h₁, rfl⟩, _, ⟨h₂, rfl⟩, _, ⟨h₃, rfl⟩, rfl⟩

theorem insertPeers_of_keyed (h : ∀ p ∈ ps, p.keyed = true) :
    insertPeers t ps = (t.putAll (ps.map peer), .ok ()) := by
  induction ps generalizing t with
  | nil => rfl
  | cons p ps ih =>
    obtain ⟨hp, hps⟩ := List.forall_mem_cons.mp h
    have hwire : Peer.fromWire p = .ok p.peer := Peer.fromWire_eq_ok.mpr ⟨hp, rfl⟩
    rw [insertPeers, hwire]
    exact ih hps

theorem optionalKey_error {err : Blob → ℕ → Error} {b id : Blob} {e : Error}
    (herr : ∀ id n, (err id n).isMismatch = false) (h : optionalKey err b id = .error e) :
    e.isMismatch = false := by
  unfold optionalKey at h
  split at h
  · cases h
  · split at h
    · rw [← error.inj h]
      exact herr _ _
    · cases h

theorem Peer.fromWire_error {e : Error} (h : Peer.fromWire p = .error e) : e.isMismatch = false := by
  have hpsk {b id : Blob} (h : optionalPsk b id = .error e) : e.isMismatch = false :=
    optionalKey_error (fun _ _ => rfl) h
  have hdisco {b id : Blob} (h : optionalDiscoKey b id = .error e) : e.isMismatch = false :=
    optionalKey_error (fun _ _ => rfl) h
  simp only [Peer.fromWire, bind_eq_error] at h
  obtain h | ⟨_, _, h | ⟨_, _, h | ⟨_, _, h⟩⟩⟩ := h
  · exact hpsk h
  · exact hpsk h
  · exact hdisco h
  · cases h

theorem insertPeers_of_not_keyed (h : ¬ ∀ p ∈ ps, p.keyed = true) :
    ∃ e, (insertPeers t ps).2 = .error e ∧ e.isMismatch = false := by
  induction ps generalizing t with
  | nil => simp at h
  | cons p ps ih =>
    rw [insertPeers]
    cases hwire : Peer.fromWire p with
    | ok q =>
      have hp := (Peer.fromWire_eq_ok.mp hwire).1
      exact ih fun hps => h (List.forall_mem_cons.mpr ⟨hp, hps⟩)
    | error e => exact ⟨e, rfl, Peer.fromWire_error hwire⟩

theorem removePeers_fst {ids : List Blob} : (removePeers t ids).1 = t.removeAll ids := by
  induction ids generalizing t with
  | nil => rfl
  | cons id ids ih => exact ih

end

/-! ### What a response does -/

section

variable {X : Externals} {m : Netmap} {r : NetmapResponse}

theorem decodeRelays_eq_ok {rs rs' : List Relay} (h : decodeRelays X rs = .ok rs') : rs' = rs := by
  induction rs generalizing rs' with
  | nil => exact (ok.inj h).symm
  | cons r rs ih =>
    simp only [decodeRelays, bind_eq_ok] at h
    obtain ⟨relay, hrelay, relays, hrelays, h⟩ := h
    simp only [Relay.fromWire, guard_eq_ok] at hrelay
    obtain ⟨-, -, -, -, -, hrelay⟩ := hrelay
    rw [← ok.inj h, ← ok.inj hrelay, ih hrelays]

def NetmapResponse.decodes (X : Externals) (r : NetmapResponse) : Bool :=
  (decodeRelays X r.relays).isOk && (parseAll X r.routes r.nodeId).isOk && r.peers.all NetmapPeer.keyed

def NetmapResponse.offers (X : Externals) (r : NetmapResponse) : List Offer :=
  match parseAll X r.routes r.nodeId with
  | .ok offers => offers
  | .error _ => []

def NetmapResponse.updatePeers (r : NetmapResponse) (t : Peers) : Peers :=
  if r.delta then (t.putAll (r.peers.map NetmapPeer.peer)).removeAll r.removedPeers
  else KeyedList.empty.putAll (r.peers.map NetmapPeer.peer)

/-- The view after a response that decodes, before its version is looked at. -/
def Netmap.update (X : Externals) (m : Netmap) (r : NetmapResponse) : Netmap :=
  (((m.assign r).setRelays r.relays).setRoutes (r.offers X)).setPeers (r.updatePeers m.peers)

/-- The view with what the response replaces before the first part of it that does not decode. -/
def Netmap.overwrite (X : Externals) (m : Netmap) (r : NetmapResponse) : Netmap :=
  if (decodeRelays X r.relays).isOk = false then m.assign r
  else if (parseAll X r.routes r.nodeId).isOk = false then (m.assign r).setRelays r.relays
  else (((m.assign r).setRelays r.relays).setRoutes (r.offers X)).setPeers
    (if r.delta then (insertPeers m.peers r.peers).1 else m.peers)

theorem apply_refused (h : r.refused = true) :
    m.apply X r = (m, .error (.gatewayIngressSchema r.gatewayIngressSchema)) := by
  rw [Netmap.apply, if_pos h]

theorem apply_unchanged (h : r.refused = false) (hu : r.unchanged = true) :
    m.apply X r = (m, .ok .unchanged) := by
  rw [Netmap.apply, if_neg (Bool.eq_false_iff.mp h), if_pos hu]

theorem finish_keyed (h : ∀ p ∈ r.peers, p.keyed = true) :
    ∃ outcome, m.finish X r = (m.setPeers (r.updatePeers m.peers)).checkVersion X r outcome := by
  unfold Netmap.finish Netmap.applyPeers NetmapResponse.updatePeers
  rw [insertPeers_of_keyed h, insertPeers_of_keyed h]
  cases r.delta with
  | true =>
    simp only [if_true, removePeers_fst]
    exact ⟨_, rfl⟩
  | false => exact ⟨_, rfl⟩

theorem finish_not_keyed (h : ¬ ∀ p ∈ r.peers, p.keyed = true) : ∃ e, e.isMismatch = false ∧ m.finish X r
      = (m.setPeers (if r.delta then (insertPeers m.peers r.peers).1 else m.peers), .error e) := by
  have hpair {t : Peers} {e : Error} (herr : (insertPeers t r.peers).2 = .error e) :
      insertPeers t r.peers = ((insertPeers t r.peers).1, .error e) := Prod.ext rfl herr
  unfold Netmap.finish Netmap.applyPeers
  cases r.delta with
  | true =>
    obtain ⟨e, herr, he⟩ := insertPeers_of_not_keyed (t := m.peers) h
    refine ⟨e, he, ?_⟩
    rw [hpair herr]
    rfl
  | false =>
    obtain ⟨e, herr, he⟩ := insertPeers_of_not_keyed (t := .empty) h
    refine ⟨e, he, ?_⟩
    rw [hpair herr]
    rfl

theorem offers_of_parseAll {offers : List Offer} (h : parseAll X r.routes r.nodeId = .ok offers) :
    r.offers X = offers := by
  rw [NetmapResponse.offers, h]

theorem apply_decoded (h : r.refused = false) (hu : r.unchanged = false) (hd : r.decodes X = true) :
    ∃ outcome, m.apply X r = (m.update X r).checkVersion X r outcome := by
  simp only [NetmapResponse.decodes, Bool.and_eq_true, List.all_eq_true] at hd
  obtain ⟨⟨hrelays, hroutes⟩, hpeers⟩ := hd
  have hnode : (m.assign r).nodeId = r.nodeId := rfl
  rw [Netmap.apply, if_neg (Bool.eq_false_iff.mp h), if_neg (Bool.eq_false_iff.mp hu), hnode]
  cases hrel : decodeRelays X r.relays with
  | error e => simp [hrel, Except.isOk, Except.toBool] at hrelays
  | ok relays =>
    cases hrou : parseAll X r.routes r.nodeId with
    | error e => simp [hrou, Except.isOk, Except.toBool] at hroutes
    | ok routes =>
      rw [Netmap.update, offers_of_parseAll hrou, ← decodeRelays_eq_ok hrel]
      exact finish_keyed hpeers

theorem apply_undecoded (h : r.refused = false) (hu : r.unchanged = false) (hd : r.decodes X = false) :
    ∃ e, e.isMismatch = false ∧ m.apply X r = (m.overwrite X r, .error e) := by
  have hnode : (m.assign r).nodeId = r.nodeId := rfl
  rw [Netmap.apply, if_neg (Bool.eq_false_iff.mp h), if_neg (Bool.eq_false_iff.mp hu), hnode,
    Netmap.overwrite]
  cases hrel : decodeRelays X r.relays with
  | error e => exact ⟨.relay e, rfl, rfl⟩
  | ok relays =>
    rw [decodeRelays_eq_ok hrel]
    cases hrou : parseAll X r.routes r.nodeId with
    | error e => exact ⟨.route e, rfl, rfl⟩
    | ok routes =>
      rw [offers_of_parseAll hrou]
      have hpeers : ¬ ∀ p ∈ r.peers, p.keyed = true := by
        simpa [NetmapResponse.decodes, hrel, hrou, Except.isOk, Except.toBool] using hd
      exact finish_not_keyed hpeers

theorem apply_ok (hu : r.unchanged = false) (h : (m.apply X r).2.isOk = true) :
    (m.apply X r).1 = { m.update X r with version := r.version } := by
  cases hr : r.refused with
  | true => simp [apply_refused hr, Except.isOk, Except.toBool] at h
  | false =>
    cases hd : r.decodes X with
    | false =>
      obtain ⟨e, -, he⟩ := apply_undecoded (m := m) hr hu hd
      simp [he, Except.isOk, Except.toBool] at h
    | true =>
      obtain ⟨o, ho⟩ := apply_decoded (m := m) hr hu hd
      rw [ho, Netmap.checkVersion] at h ⊢
      split
      · rename_i hne
        simp [if_pos hne, Except.isOk, Except.toBool] at h
      · rfl

end

end Karst.Control
