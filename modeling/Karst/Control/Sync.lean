import Karst.Control.Netmap
import Karst.Control.Separation

/-!
# Keeping a node's netmap in step

The end of `NetmapHandler.Handle` (`control/netmap.go`) answers a node that says which version and which
peers it holds: with nothing, with what differs, or with everything.  Applied to the view it was computed
for, the answer is to give what the whole netmap would give.
-/

namespace Karst.Control

open NetmapResponse Server Netmap KeyedList
open List hiding Vector

/-! ### The server -/

/-- What the request says of a peer; of several entries the last counts. -/
def heldDigest (holds : List PeerDigest) (id : Blob) : Option UInt64 :=
  (holds.reverse.find? (·.nodeId = id)).map (·.digest)

/-- Cut the peers down to those the node does not hold as they are. -/
def NetmapResponse.toDelta (X : Externals) (M : NetmapResponse) (holds : List PeerDigest) :
    NetmapResponse :=
  { M with
    peers := M.peers.filter fun p =>
      heldDigest holds p.nodeId ≠ some (Server.peerDigest X.hash64 p M.pskEpoch)
    removedPeers := ((holds.map (·.nodeId)).dedup.filter fun id =>
      id ∉ M.peers.map (·.nodeId)).insertionSort (· ≤ ·)
    delta := true }

def respond (X : Externals) (M : NetmapResponse) (known : UInt64) (holds : List PeerDigest) :
    NetmapResponse :=
  let version := Server.netmapVersion X.hash64 M
  let resp := { M with version }
  let resp := if holds = [] then resp else resp.toDelta X holds
  if known ≠ 0 ∧ known = version then
    { resp with peers := [], removedPeers := [], delta := false, unchanged := true }
  else resp

def NetmapPeer.keys (p : NetmapPeer) : Blob × Blob × Blob := (p.psk, p.pskPrevious, p.discoKey)

/-- A netmap as the handler has put it together: peers by their ids, keys by peer and epoch. -/
structure Complete (keys : Blob → UInt32 → Blob × Blob × Blob) (M : NetmapResponse) : Prop where
  whole : M.delta = false
  fresh : M.unchanged = false
  sorted : M.peers.Pairwise fun p q => p.nodeId < q.nodeId
  keyed : ∀ p ∈ M.peers, p.keys = keys p.nodeId M.pskEpoch
  schema : M.gatewayIngressSchema = if M.packetFilter.any (fun r => !r.dstCidrs.isEmpty) then 1 else 0
  ssh : ∀ r ∈ M.sshFilter, r.dstCidrs = []
  providers : (M.allowedRegions.getD []).Pairwise fun a b => a.provider < b.provider

/-- All of it decodes at a node, and the numbers it holds as smaller types are such numbers. -/
structure Readable (X : Externals) (M : NetmapResponse) : Prop where
  decodes : M.decodes X = true
  dns : DnsConfig.fromWire M.dnsConfig = M.dnsConfig.getD .zero
  mode : BedrockHead.fromWire M.bedrockHead = M.bedrockHead.getD .zero
  ports : EphemeralAnchors.fromWire M.ephemeralAnchors = M.ephemeralAnchors.getD .zero

/-! ### Polls -/

/-- One request of a node, and what it does with the answer. -/
def poll (X : Externals) (H : Netmap) (M : NetmapResponse) : Attempt :=
  H.apply X (respond X M H.version (H.holds X))

/-- The whole netmap, given to a node that holds nothing. -/
def applyWhole (X : Externals) (M : NetmapResponse) : Attempt := Netmap.new.apply X (respond X M 0 [])

structure Lossless (X : Externals) (H : Netmap) (M : NetmapResponse) : Prop where
  accepted : (poll X H M).2.isOk = true
  same : (poll X H M).1 = (applyWhole X M).1
  version : (poll X H M).1.version = Server.netmapVersion X.hash64 M
    ∧ (poll X H M).1.contentVersion X = Server.netmapVersion X.hash64 M
  digests : (poll X H M).1.holds X = M.peers.map fun p => ⟨p.nodeId, Server.peerDigest X.hash64 p M.pskEpoch⟩
  gone : ∀ p ∈ (poll X H M).1.peers.toList, p.nodeId ∈ M.peers.map (·.nodeId)
  unchanged : (respond X M H.version (H.holds X)).unchanged = true → H.content = M.content

def LosslessRun (X : Externals) : Netmap → List NetmapResponse → Prop
  | _, [] => True
  | H, M :: Ms => Lossless X H M ∧ LosslessRun X (poll X H M).1 Ms

/-! ### What a node holds after a whole netmap -/

section

variable {X : Externals} {keys : Blob → UInt32 → Blob × Blob × Blob} {M M' : NetmapResponse}

def NetmapResponse.asRead (M : NetmapResponse) : NetmapContent :=
  { M.content with
    dns := DnsConfig.fromWire M.dnsConfig
    bedrockHead := BedrockHead.fromWire M.bedrockHead
    ephemeralAnchors := EphemeralAnchors.fromWire M.ephemeralAnchors }

/-- The view of a node that has accepted the whole netmap. -/
def NetmapResponse.held (X : Externals) (M : NetmapResponse) : Netmap :=
  { Netmap.new.update X M with version := Server.netmapVersion X.hash64 M }

theorem Readable.asRead_eq (h : Readable X M) : M.asRead = M.content := by
  rw [asRead, h.dns, h.mode, h.ports]
  rfl

theorem asRead_shape (M : NetmapResponse) : M.asRead.shape = M.content.shape := by
  have hdns (c : Option DnsConfig) : (DnsConfig.fromWire c).nameservers = (c.getD .zero).nameservers
      ∧ (DnsConfig.fromWire c).searchDomains = (c.getD .zero).searchDomains
      ∧ (DnsConfig.fromWire c).upstreams.length = (c.getD .zero).upstreams.length
      ∧ (DnsConfig.fromWire c).routes.map DnsRoute.shape = (c.getD .zero).routes.map DnsRoute.shape := by
    cases c with
    | none => exact ⟨rfl, rfl, rfl, rfl⟩
    | some c =>
      refine ⟨rfl, rfl, length_map _, ?_⟩
      show (c.routes.map DnsRoute.fromWire).map DnsRoute.shape = c.routes.map DnsRoute.shape
      rw [map_map]
      refine map_congr_left fun r _ => ?_
      simp [DnsRoute.shape, DnsRoute.fromWire]
  have hanchors (a : Option EphemeralAnchors) :
      (EphemeralAnchors.fromWire a).anchors.length = (a.getD .zero).anchors.length := by
    cases a with
    | none => rfl
    | some a => exact length_map _
  obtain ⟨h₁, h₂, h₃, h₄⟩ := hdns M.dnsConfig
  simp only [NetmapContent.shape, asRead, h₁, h₂, h₃, h₄, hanchors]
  rfl

variable (h : Complete keys M)
include h

theorem Complete.not_refused : M.refused = false := by
  have hssh : M.sshFilter.any (fun rule => !rule.dstCidrs.isEmpty) = false := by
    rw [any_eq_false]
    intro r hr
    simp [h.ssh r hr]
  rw [refused, hssh, h.schema]
  cases M.packetFilter.any fun r => !r.dstCidrs.isEmpty <;> rfl

theorem Complete.sorted_peers : (M.peers.map NetmapPeer.peer).Pairwise fun a b => a.nodeId < b.nodeId :=
  pairwise_map.mpr h.sorted

theorem Complete.held_peers : (M.held X).peers = ⟨M.peers.map NetmapPeer.peer, h.sorted_peers⟩ := by
  show M.updatePeers .empty = _
  rw [updatePeers, h.whole]
  exact putAll_empty h.sorted_peers

theorem Complete.content_held (hd : M.decodes X = true) : (M.held X).content = M.asRead := by
  have hroutes : (M.offers X).map Offer.view = M.routes := by
    simp only [decodes, Bool.and_eq_true] at hd
    cases hparse : parseAll X M.routes M.nodeId with
    | error e => simp [hparse, Except.isOk, Except.toBool] at hd
    | ok offers => rw [offers_of_parseAll hparse, parseOffers_view hparse]
  have hpeers : (M.held X).peers.toList.map Peer.entry = M.peers.map NetmapPeer.entry := by
    rw [h.held_peers, map_map]
    rfl
  have hssh : M.sshFilter.map FilterRule.view = M.sshFilter.map FilterRule.sshView := by
    refine map_congr_left fun r hr => ?_
    rw [FilterRule.view, FilterRule.sshView, h.ssh r hr]
  have hregions : AllowedRegions.fromWire M.allowedRegions = ⟨M.allowedRegions.getD [], h.providers⟩ :=
    putAll_empty h.providers
  refine NetmapContent.ext rfl rfl rfl rfl hpeers rfl rfl rfl hssh rfl hroutes rfl rfl ?_ rfl
  show (AllowedRegions.fromWire M.allowedRegions).toList = _
  rw [hregions]
  rfl

omit h

/-- The byte strings that are hashed for a netmap, at both ends. -/
def NetmapResponse.hashed (M : NetmapResponse) : List Bytes :=
  Client.netmapVersionInput M.content :: Client.netmapVersionInput M.asRead
    :: M.peers.map fun p => Client.peerDigestInput p.entry M.pskEpoch

/-- Different ones of these have different hashes. -/
def Externals.Separates (X : Externals) (Ms : List NetmapResponse) : Prop :=
  ∀ a ∈ Ms.flatMap NetmapResponse.hashed, ∀ b ∈ Ms.flatMap NetmapResponse.hashed,
    nonzero (X.hash64 a) = nonzero (X.hash64 b) → a = b

theorem Externals.Separates.mono {Ms Ns : List NetmapResponse} (h : X.Separates Ms)
    (hsub : ∀ M ∈ Ns, M ∈ Ms) : X.Separates Ns := by
  have hmem {a : Bytes} (ha : a ∈ Ns.flatMap hashed) : a ∈ Ms.flatMap hashed := by
    obtain ⟨M, hM, haM⟩ := mem_flatMap.mp ha
    exact mem_flatMap.mpr ⟨M, hsub M hM, haM⟩
  exact fun a ha b hb heq => h a (hmem ha) b (hmem hb) heq

theorem netmapVersion_ne_zero (M : NetmapResponse) : netmapVersion X.hash64 M ≠ 0 := by
  rw [netmapVersion, nonzero]
  split
  · decide
  · assumption

theorem netmapVersion_eq (M : NetmapResponse) :
    netmapVersion X.hash64 M = Client.netmapVersion X.hash64 M.content := by
  rw [netmapVersion, netmapVersionInput_eq, Client.netmapVersion]

theorem checkVersion_of_eq {m : Netmap} {r : NetmapResponse} {o : Outcome}
    (h : m.contentVersion X = r.version) :
    m.checkVersion X r o = ({ m with version := r.version }, .ok o) := by
  rw [checkVersion, if_neg (not_not.mpr h)]

theorem checkVersion_version {m : Netmap} {r : NetmapResponse} {o : Outcome}
    (h : (m.checkVersion X r o).1.version ≠ m.version) : m.contentVersion X = r.version := by
  by_contra hne
  rw [checkVersion, if_pos hne] at h
  exact h rfl

theorem whole_response (M : NetmapResponse) :
    respond X M 0 [] = { M with version := netmapVersion X.hash64 M } := by
  simp [respond]

include h

theorem applyWhole_of_readable (hr : Readable X M) : ∃ o, applyWhole X M = (M.held X, .ok o) := by
  have hcontent : (M.held X).contentVersion X = netmapVersion X.hash64 M := by
    rw [contentVersion, h.content_held hr.decodes, hr.asRead_eq, netmapVersion_eq]
  obtain ⟨o, ho⟩ := apply_decoded (X := X) (m := .new)
    (r := { M with version := netmapVersion X.hash64 M }) h.not_refused h.fresh hr.decodes
  refine ⟨o, ?_⟩
  rw [applyWhole, whole_response, ho]
  exact checkVersion_of_eq hcontent

/-- **Only a readable netmap is accepted whole.**  All else leaves version 0. -/
theorem readable_of_applyWhole (hsep : X.Separates [M])
    (hv : (applyWhole X M).1.version ≠ 0) : Readable X M := by
  rw [applyWhole, whole_response] at hv
  cases hd : M.decodes X with
  | false =>
    obtain ⟨e, -, he⟩ := apply_undecoded (X := X) (m := .new)
      (r := { M with version := netmapVersion X.hash64 M }) h.not_refused h.fresh hd
    rw [he] at hv
    refine absurd ?_ hv
    unfold Netmap.overwrite
    split
    · rfl
    · split <;> rfl
  | true =>
    obtain ⟨o, ho⟩ := apply_decoded (X := X) (m := .new)
      (r := { M with version := netmapVersion X.hash64 M }) h.not_refused h.fresh hd
    rw [ho] at hv
    have heq : (M.held X).contentVersion X = netmapVersion X.hash64 M := checkVersion_version hv
    rw [contentVersion, h.content_held hd, netmapVersion_eq] at heq
    have hinput := hsep _ (by simp [hashed]) _ (by simp [hashed]) heq
    have hread := netmapVersionInput_inj (asRead_shape M) hinput
    exact ⟨hd, congrArg NetmapContent.dns hread, congrArg NetmapContent.bedrockHead hread,
      congrArg NetmapContent.ephemeralAnchors hread⟩

end

/-! ### One poll -/

/-- The hashes are of different strings unless what they stand for is the same. -/
structure Separated (prev M : NetmapResponse) : Prop where
  content : Server.netmapVersionInput prev = Server.netmapVersionInput M → prev.content = M.content
  peers : ∀ p ∈ prev.peers, ∀ q ∈ M.peers, p.nodeId = q.nodeId →
    Server.peerDigestInput p prev.pskEpoch = Server.peerDigestInput q M.pskEpoch → p.entry = q.entry

section

variable {X : Externals} {keys : Blob → UInt32 → Blob × Blob × Blob} {prev M : NetmapResponse}
  {known : UInt64} {holds : List PeerDigest}

theorem refused_respond : (respond X M known holds).refused = M.refused := by
  unfold respond
  simp only
  split <;> split <;> rfl

theorem respond_of_known (hz : known ≠ 0) (h : known = netmapVersion X.hash64 M) :
    (respond X M known holds).unchanged = true := by
  unfold respond
  rw [if_pos ⟨hz, h⟩]

theorem respond_of_ne (h : known ≠ netmapVersion X.hash64 M) :
    respond X M known holds = if holds = [] then { M with version := netmapVersion X.hash64 M }
      else { M with version := netmapVersion X.hash64 M }.toDelta X holds := by
  unfold respond
  rw [if_neg (fun hk => h hk.2)]

theorem Complete.holds_held (h : Complete keys M) :
    (M.held X).holds X = M.peers.map fun p => ⟨p.nodeId, Server.peerDigest X.hash64 p M.pskEpoch⟩ := by
  rw [holds, h.held_peers, map_map]
  refine map_congr_left fun p _ => ?_
  show PeerDigest.mk p.nodeId (Client.peerDigest X.hash64 p.entry M.pskEpoch) = _
  rw [Client.peerDigest, Server.peerDigest, Server.peerDigestInput_eq]

variable {id : Blob}

theorem heldDigest_eq_some {d : UInt64} (h : (holds.map (·.nodeId)).Nodup) :
    heldDigest holds id = some d ↔ ⟨id, d⟩ ∈ holds := by
  rw [heldDigest, Option.map_eq_some_iff]
  constructor
  · rintro ⟨e, he, rfl⟩
    have hid : e.nodeId = id := by simpa using find?_some he
    have hmem : e ∈ holds := mem_reverse.mp (mem_of_find?_eq_some he)
    rw [← hid]
    exact hmem
  · intro hmem
    cases hfind : holds.reverse.find? (·.nodeId = id) with
    | none =>
      rw [find?_eq_none] at hfind
      exact absurd (decide_eq_true rfl) (hfind _ (mem_reverse.mpr hmem))
    | some e =>
      have hid : e.nodeId = id := by simpa using find?_some hfind
      have he : e ∈ holds := mem_reverse.mp (mem_of_find?_eq_some hfind)
      have heq : e = ⟨id, d⟩ := inj_on_of_nodup_map h he hmem hid
      exact ⟨e, rfl, by rw [heq]⟩

theorem Complete.nodup_ids (h : Complete keys M) : (M.peers.map (·.nodeId)).Nodup :=
  pairwise_map.mpr (h.sorted.imp ne_of_lt)

variable {p q : NetmapPeer}

theorem Complete.eq_of_id (h : Complete keys M) (hp : p ∈ M.peers) (hq : q ∈ M.peers)
    (hid : p.nodeId = q.nodeId) : p = q := inj_on_of_nodup_map h.nodup_ids hp hq hid

theorem Complete.heldDigest_held (h : Complete keys prev) {d : UInt64} :
    heldDigest ((prev.held X).holds X) id = some d ↔ ∃ p ∈ prev.peers, p.nodeId = id
      ∧ Server.peerDigest X.hash64 p prev.pskEpoch = d := by
  have hnodup : (((prev.held X).holds X).map (·.nodeId)).Nodup := by
    rw [h.holds_held, map_map]
    exact h.nodup_ids
  rw [heldDigest_eq_some hnodup, h.holds_held, mem_map]
  simp only [PeerDigest.mk.injEq]

def Kept (X : Externals) (prev M : NetmapResponse) (q : NetmapPeer) : Prop :=
  ∃ p ∈ prev.peers, p.nodeId = q.nodeId
    ∧ Server.peerDigest X.hash64 p prev.pskEpoch = Server.peerDigest X.hash64 q M.pskEpoch

theorem Complete.mem_changed (h : Complete keys prev) :
    q ∈ (M.toDelta X ((prev.held X).holds X)).peers ↔ q ∈ M.peers ∧ ¬ Kept X prev M q := by
  show q ∈ M.peers.filter _ ↔ _
  rw [mem_filter, decide_eq_true_eq, Kept, ne_eq, h.heldDigest_held]

theorem Complete.mem_removed (h : Complete keys prev) :
    id ∈ (M.toDelta X ((prev.held X).holds X)).removedPeers
      ↔ id ∈ prev.peers.map (·.nodeId) ∧ id ∉ M.peers.map (·.nodeId) := by
  show id ∈ insertionSort _ _ ↔ _
  rw [mem_insertionSort, mem_filter, mem_dedup, h.holds_held, map_map, decide_eq_true_eq]
  rfl

theorem Externals.Separates.digest (h : X.Separates [prev, M]) (hp : p ∈ prev.peers) (hq : q ∈ M.peers)
    (heq : Server.peerDigest X.hash64 p prev.pskEpoch = Server.peerDigest X.hash64 q M.pskEpoch) :
    Server.peerDigestInput p prev.pskEpoch = Server.peerDigestInput q M.pskEpoch := by
  rw [Server.peerDigest, Server.peerDigest] at heq
  rw [Server.peerDigestInput_eq, Server.peerDigestInput_eq] at heq ⊢
  refine h _ ?_ _ ?_ (by rw [heq])
  · exact mem_flatMap.mpr ⟨prev, by simp, by
      simp only [hashed, mem_cons, mem_map]
      exact .inr (.inr ⟨p, hp, rfl⟩)⟩
  · exact mem_flatMap.mpr ⟨M, by simp, by
      simp only [hashed, mem_cons, mem_map]
      exact .inr (.inr ⟨q, hq, rfl⟩)⟩

theorem Externals.Separates.version (h : X.Separates [prev, M])
    (heq : netmapVersion X.hash64 prev = netmapVersion X.hash64 M) :
    netmapVersionInput prev = netmapVersionInput M := by
  rw [netmapVersion_eq, netmapVersion_eq] at heq
  rw [netmapVersionInput_eq, netmapVersionInput_eq]
  exact h _ (by simp [hashed]) _ (by simp [hashed]) heq

theorem decodes_respond (hd : M.decodes X = true) (h : known ≠ netmapVersion X.hash64 M) :
    (respond X M known holds).decodes X = true := by
  rw [respond_of_ne h]
  split
  · exact hd
  · simp only [decodes, Bool.and_eq_true, all_eq_true] at hd ⊢
    exact ⟨hd.1, fun p hp => hd.2 p (mem_filter.mp hp).1⟩

theorem version_respond : (respond X M known holds).version = netmapVersion X.hash64 M := by
  unfold respond
  simp only
  split <;> split <;> rfl

variable {H : Netmap}

theorem update_respond (h : known ≠ netmapVersion X.hash64 M) :
    H.update X (respond X M known holds) = { M.held X with
      version := H.version, peers := (respond X M known holds).updatePeers H.peers } := by
  rw [respond_of_ne h]
  split <;> rfl

theorem Complete.content_eq (h : Complete keys M) (hr : Readable X M) : (M.held X).content = M.content := by
  rw [h.content_held hr.decodes, hr.asRead_eq]

theorem Complete.contentVersion_held (h : Complete keys M) (hr : Readable X M) :
    (M.held X).contentVersion X = netmapVersion X.hash64 M := by
  rw [contentVersion, h.content_eq hr, netmapVersion_eq]

variable (hprev : Complete keys prev) (hM : Complete keys M)
include hM

theorem unchanged_respond (h : known ≠ netmapVersion X.hash64 M) :
    (respond X M known holds).unchanged = false := by
  rw [respond_of_ne h]
  split <;> exact hM.fresh

theorem poll_known (h : netmapVersion X.hash64 prev = netmapVersion X.hash64 M) :
    poll X (prev.held X) M = (prev.held X, .ok .unchanged) := by
  refine apply_unchanged ?_ (respond_of_known (netmapVersion_ne_zero prev) h)
  rw [refused_respond]
  exact hM.not_refused

theorem poll_new (hr : Readable X M) (h : H.version ≠ netmapVersion X.hash64 M)
    (hpeers : (respond X M H.version (H.holds X)).updatePeers H.peers = (M.held X).peers) :
    ∃ o, poll X H M = (M.held X, .ok o) := by
  have hrefused : (respond X M H.version (H.holds X)).refused = false := by
    rw [refused_respond]
    exact hM.not_refused
  obtain ⟨o, ho⟩ := apply_decoded (m := H) hrefused (unchanged_respond hM h) (decodes_respond hr.decodes h)
  refine ⟨o, ?_⟩
  rw [poll, ho, update_respond h, hpeers]
  have hcontent : ({ M.held X with version := H.version } : Netmap).contentVersion X
      = (respond X M H.version (H.holds X)).version := by
    rw [version_respond]
    exact hM.contentVersion_held hr
  refine (checkVersion_of_eq hcontent).trans ?_
  rw [version_respond]
  rfl

theorem lossless_of_held {o : Except Error Outcome} (hr : Readable X M)
    (hpoll : poll X H M = (M.held X, o)) (hok : o.isOk = true)
    (hu : (respond X M H.version (H.holds X)).unchanged = true → H.content = M.content) : Lossless X H M := by
  obtain ⟨o', hwhole⟩ := applyWhole_of_readable hM hr
  refine ⟨?_, ?_, ?_, ?_, ?_, hu⟩
  · rw [hpoll]
    exact hok
  · rw [hpoll, hwhole]
  · rw [hpoll]
    exact ⟨rfl, hM.contentVersion_held hr⟩
  · rw [hpoll]
    exact hM.holds_held
  · rw [hpoll]
    intro p hp
    rw [hM.held_peers] at hp
    obtain ⟨q, hq, rfl⟩ := mem_map.mp hp
    exact mem_map_of_mem hq

theorem Lossless.readable (hsep : X.Separates [M]) (h : Lossless X H M) : Readable X M := by
  refine readable_of_applyWhole hM hsep ?_
  rw [← h.same, h.version.1]
  exact netmapVersion_ne_zero M

theorem Lossless.poll_eq (hr : Readable X M) (h : Lossless X H M) : (poll X H M).1 = M.held X := by
  obtain ⟨o, ho⟩ := applyWhole_of_readable hM hr
  rw [h.same, ho]

theorem first_lossless_iff (hsep : X.Separates [M]) : Lossless X .new M ↔ Readable X M := by
  constructor
  · exact Lossless.readable hM hsep
  · intro hr
    obtain ⟨o, ho⟩ := applyWhole_of_readable hM hr
    refine lossless_of_held hM hr ho rfl ?_
    intro hu
    have hnot : (respond X M 0 []).unchanged = false := by
      exact hM.fresh
    exact absurd (hu.symm.trans hnot) (by decide)

include hprev

/-- **The peers a delta leaves**: those that were sent, and those of the held ones that are still there
and were not. -/
theorem mem_delta_peers {a : Peer} :
    a ∈ ((M.toDelta X ((prev.held X).holds X)).updatePeers (prev.held X).peers).toList ↔
      (∃ q ∈ M.peers, ¬ Kept X prev M q ∧ q.peer = a)
      ∨ ∃ p ∈ prev.peers, p.peer = a ∧ ∃ q ∈ M.peers, q.nodeId = p.nodeId ∧ Kept X prev M q := by
  have hnodup : (((M.toDelta X ((prev.held X).holds X)).peers.map NetmapPeer.peer).map
      Peer.nodeId).Nodup := by
    rw [map_map]
    exact hM.nodup_ids.sublist (filter_sublist.map _)
  have hdelta : (M.toDelta X ((prev.held X).holds X)).delta = true := rfl
  rw [updatePeers, if_pos hdelta, mem_removeAll, mem_putAll hnodup, hprev.mem_removed, hprev.held_peers]
  simp only [mem_map, hprev.mem_changed]
  constructor
  · rintro ⟨⟨q, ⟨hq, hkept⟩, rfl⟩ | ⟨⟨p, hp, rfl⟩, hnew⟩, hstays⟩
    · exact .inl ⟨q, hq, hkept, rfl⟩
    · refine .inr ⟨p, hp, rfl, ?_⟩
      -- the peer was not removed, so the netmap has it; it was not sent, so the node has it as it is
      have hpresent : ∃ q ∈ M.peers, q.nodeId = p.nodeId := by
        by_contra hnone
        exact hstays ⟨⟨p, hp, rfl⟩, hnone⟩
      obtain ⟨q, hq, hid⟩ := hpresent
      refine ⟨q, hq, hid, ?_⟩
      by_contra hkept
      exact hnew q.peer ⟨q, ⟨hq, hkept⟩, rfl⟩ hid
  · rintro (⟨q, hq, hkept, rfl⟩ | ⟨p, hp, rfl, q, hq, hid, hkept⟩)
    · exact ⟨.inl ⟨q, ⟨hq, hkept⟩, rfl⟩, fun hgone => hgone.2 ⟨q, hq, rfl⟩⟩
    · refine ⟨.inr ⟨⟨p, hp, rfl⟩, ?_⟩, fun hgone => hgone.2 ⟨q, hq, hid⟩⟩
      rintro _ ⟨q', ⟨hq', hnot⟩, rfl⟩ hid'
      have heq : q' = q := hM.eq_of_id hq' hq (hid'.trans hid.symm)
      exact hnot (heq ▸ hkept)

theorem peer_eq_of_entry (hp : p ∈ prev.peers)
    (hq : q ∈ M.peers) (hepoch : prev.pskEpoch = M.pskEpoch) (hentry : p.entry = q.entry) :
    p.peer = q.peer := by
  have hid : p.nodeId = q.nodeId := congrArg PeerEntry.nodeId hentry
  have hkeys : p.keys = q.keys := by rw [hprev.keyed p hp, hM.keyed q hq, hid, hepoch]
  simp only [NetmapPeer.keys, Prod.mk.injEq] at hkeys
  simp only [NetmapPeer.entry, PeerEntry.mk.injEq] at hentry
  simp only [NetmapPeer.peer, hkeys, hentry]

/-- **A delta gives the peers of the netmap**, if digests tell the held ones apart. -/
theorem delta_peers_eq (hsep : X.Separates [prev, M]) (h : Separated prev M) :
    (M.toDelta X ((prev.held X).holds X)).updatePeers (prev.held X).peers = (M.held X).peers := by
  -- what the node keeps is what it would have been sent
  have hsame : ∀ p ∈ prev.peers, ∀ q ∈ M.peers, q.nodeId = p.nodeId → Kept X prev M q → p.peer = q.peer := by
    intro p hp q hq hid hkept
    obtain ⟨p', hp', hid', hdigest⟩ := hkept
    obtain rfl : p' = p := hprev.eq_of_id hp' hp (hid'.trans hid)
    have hinput := hsep.digest hp hq hdigest
    have hepoch : prev.pskEpoch = M.pskEpoch := by
      rw [Server.peerDigestInput_eq, Server.peerDigestInput_eq, peerDigestInput_iff] at hinput
      exact hinput.1
    exact peer_eq_of_entry hprev hM hp hq hepoch (h.peers p' hp q hq hid' hinput)
  refine ext_mem fun a => ?_
  rw [mem_delta_peers hprev hM, hM.held_peers, mem_map]
  constructor
  · rintro (⟨q, hq, -, rfl⟩ | ⟨p, hp, rfl, q, hq, hid, hkept⟩)
    · exact ⟨q, hq, rfl⟩
    · exact ⟨q, hq, (hsame p hp q hq hid hkept).symm⟩
  · rintro ⟨q, hq, rfl⟩
    by_cases hkept : Kept X prev M q
    · obtain ⟨p, hp, hid, hdigest⟩ := id hkept
      exact .inr ⟨p, hp, hsame p hp q hq hid.symm hkept, q, hq, hid.symm, hkept⟩
    · exact .inl ⟨q, hq, hkept, rfl⟩

theorem updatePeers_respond (hsep : X.Separates [prev, M]) (hS : Separated prev M)
    (h : (prev.held X).version ≠ netmapVersion X.hash64 M) :
    (respond X M (prev.held X).version ((prev.held X).holds X)).updatePeers (prev.held X).peers
      = (M.held X).peers := by
  rw [respond_of_ne h]
  split
  · show M.updatePeers _ = M.updatePeers _
    rw [updatePeers, updatePeers, hM.whole]
    rfl
  · show (M.toDelta X _).updatePeers _ = _
    exact delta_peers_eq hprev hM hsep hS

theorem mem_peers_of_content (h : prev.content = M.content) {a : Peer} (ha : a ∈ (prev.held X).peers.toList) :
    a ∈ (M.held X).peers.toList := by
  have hentries : prev.peers.map NetmapPeer.entry = M.peers.map NetmapPeer.entry :=
    congrArg NetmapContent.peers h
  rw [hprev.held_peers] at ha
  rw [hM.held_peers]
  obtain ⟨p, hp, rfl⟩ := mem_map.mp ha
  have hentry : p.entry ∈ M.peers.map NetmapPeer.entry := by
    rw [← hentries]
    exact mem_map_of_mem hp
  obtain ⟨q, hq, heq⟩ := mem_map.mp hentry
  have hpeer := peer_eq_of_entry hprev hM hp hq (congrArg NetmapContent.pskEpoch h) heq.symm
  exact mem_map.mpr ⟨q, hq, hpeer.symm⟩

theorem held_congr (hpr : Readable X prev)
    (hr : Readable X M) (h : prev.content = M.content) : prev.held X = M.held X := by
  have hepoch : prev.pskEpoch = M.pskEpoch := congrArg NetmapContent.pskEpoch h
  have hnode : prev.nodeId = M.nodeId := congrArg NetmapContent.nodeId h
  have hfilter : Function.Injective FilterRule.view := by
    intro r r' hrr
    simp only [FilterRule.view, RuleView.mk.injEq] at hrr
    exact FilterRule.ext hrr.1 hrr.2.1 hrr.2.2
  have hegress : Function.Injective EgressRule.view := by
    intro r r' hrr
    simp only [EgressRule.view, RuleView.mk.injEq] at hrr
    exact EgressRule.ext hrr.1 hrr.2.1 hrr.2.2
  have hcontent : (prev.held X).content = (M.held X).content := by
    rw [hprev.content_eq hpr, hM.content_eq hr, h]
  refine Netmap.ext ?_ hepoch hnode (congrArg NetmapContent.addresses h) (congrArg NetmapContent.dnsName h)
    (congrArg NetmapContent.dns hcontent) (congrArg NetmapContent.bedrockHead hcontent)
    (ext_toList (congrArg NetmapContent.allowedRegions hcontent))
    (congrArg NetmapContent.ephemeralAnchors hcontent)
    (map_injective_iff.mpr hfilter (congrArg NetmapContent.packetFilter hcontent))
    (map_injective_iff.mpr hegress (congrArg NetmapContent.egressFilter hcontent))
    (map_injective_iff.mpr hfilter (congrArg NetmapContent.sshFilter hcontent))
    (congrArg NetmapContent.sshFilterPresent h) (congrArg NetmapContent.relays h) ?_ ?_
  · show netmapVersion _ _ = netmapVersion _ _
    rw [netmapVersion_eq, netmapVersion_eq, h]
  · have hroutes : prev.routes = M.routes := congrArg NetmapContent.routes h
    show prev.offers X = M.offers X
    rw [offers, offers, hnode, hroutes]
  · refine ext_mem fun a => ⟨?_, ?_⟩
    · exact mem_peers_of_content hprev hM h
    · exact mem_peers_of_content hM hprev h.symm

theorem lossless_of_separated (hpr : Readable X prev)
    (hr : Readable X M) (hsep : X.Separates [prev, M]) (hS : Separated prev M) :
    Lossless X (prev.held X) M := by
  by_cases hknown : netmapVersion X.hash64 prev = netmapVersion X.hash64 M
  · -- the same version is of the same content
    have hcontent := hS.content (hsep.version hknown)
    have hheld := held_congr hprev hM hpr hr hcontent
    refine lossless_of_held hM hr ((poll_known hM hknown).trans (by rw [hheld])) rfl ?_
    intro _
    rw [hprev.content_eq hpr, hcontent]
  · obtain ⟨o, ho⟩ := poll_new hM hr hknown (updatePeers_respond hprev hM hsep hS hknown)
    refine lossless_of_held hM hr ho rfl ?_
    intro hu
    exact absurd (hu.symm.trans (unchanged_respond hM hknown)) (by decide)

theorem separated_of_lossless (hpr : Readable X prev)
    (hr : Readable X M) (h : Lossless X (prev.held X) M) : Separated prev M := by
  have hcontent (hknown : netmapVersion X.hash64 prev = netmapVersion X.hash64 M) :
      prev.content = M.content := by
    rw [← hprev.content_eq hpr]
    exact h.unchanged (respond_of_known (netmapVersion_ne_zero prev) hknown)
  refine ⟨?_, ?_⟩
  · intro hinput
    refine hcontent ?_
    rw [netmapVersion, netmapVersion, hinput]
  · intro p hp q hq hid hinput
    -- it is enough that the node still holds the old peer
    suffices hmem : p.peer ∈ (M.held X).peers.toList by
      rw [hM.held_peers] at hmem
      obtain ⟨q', hq', heq⟩ := mem_map.mp hmem
      have hid' : q'.nodeId = q.nodeId := (congrArg Peer.nodeId heq).trans hid
      rw [← hM.eq_of_id hq' hq hid']
      exact (congrArg Peer.entry heq).symm
    have hheld : p.peer ∈ (prev.held X).peers.toList := by
      rw [hprev.held_peers]
      exact mem_map_of_mem hp
    by_cases hknown : netmapVersion X.hash64 prev = netmapVersion X.hash64 M
    · exact mem_peers_of_content hprev hM (hcontent hknown) hheld
    · have hknown : (prev.held X).version ≠ netmapVersion X.hash64 M := hknown
      obtain ⟨o, hwhole⟩ := applyWhole_of_readable hM hr
      have hstate := (apply_ok (unchanged_respond hM hknown) h.accepted).symm.trans h.same
      rw [hwhole] at hstate
      have hpeers : (respond X M (prev.held X).version ((prev.held X).holds X)).updatePeers
          (prev.held X).peers = (M.held X).peers := congrArg Netmap.peers hstate
      have hnames : (prev.held X).holds X ≠ [] := by
        rw [hprev.holds_held, ne_eq, map_eq_nil_iff]
        exact ne_nil_of_mem hp
      rw [respond_of_ne hknown, if_neg hnames] at hpeers
      rw [← hpeers]
      refine (mem_delta_peers hprev hM).mpr (.inr ⟨p, hp, rfl, q, hq, hid.symm, p, hp, hid, ?_⟩)
      rw [Server.peerDigest, Server.peerDigest, hinput]

theorem poll_lossless_iff (hpr : Readable X prev) (hsep : X.Separates [prev, M]) :
    Lossless X (prev.held X) M ↔ Readable X M ∧ Separated prev M := by
  constructor
  · intro h
    have hr := h.readable hM (hsep.mono (by simp))
    exact ⟨hr, separated_of_lossless hprev hM hpr hr h⟩
  · intro ⟨hr, hS⟩
    exact lossless_of_separated hprev hM hpr hr hsep hS

omit hprev hM

/-! ### Runs -/

theorem later_lossless_iff {Ms : List NetmapResponse} (hcomplete : ∀ M ∈ prev :: Ms, Complete keys M)
    (hpr : Readable X prev) (hsep : X.Separates (prev :: Ms)) :
    LosslessRun X (prev.held X) Ms ↔ (∀ M ∈ Ms, Readable X M) ∧ (prev :: Ms).IsChain Separated := by
  induction Ms generalizing prev with
  | nil => simp [LosslessRun]
  | cons M Ms ih =>
    obtain ⟨hprev, hrest⟩ := forall_mem_cons.mp hcomplete
    have hM := hrest M mem_cons_self
    have hstep := poll_lossless_iff hprev hM hpr (hsep.mono (by simp))
    have htail : X.Separates (M :: Ms) := hsep.mono fun _ => mem_cons_of_mem _
    rw [LosslessRun, hstep, forall_mem_cons, isChain_cons_cons]
    constructor
    · intro ⟨⟨hr, hS⟩, hrun⟩
      rw [(hstep.mpr ⟨hr, hS⟩).poll_eq hM hr, ih hrest hr htail] at hrun
      exact ⟨⟨hr, hrun.1⟩, hS, hrun.2⟩
    · intro ⟨⟨hr, hall⟩, hS, hchain⟩
      refine ⟨⟨hr, hS⟩, ?_⟩
      rw [(hstep.mpr ⟨hr, hS⟩).poll_eq hM hr, ih hrest hr htail]
      exact ⟨hall, hchain⟩

/-- **Every run of polls** gives what the whole netmaps would, exactly when the node can read them
and those that differ are hashed from different strings. -/
theorem sync_lossless_iff {Ms : List NetmapResponse} (hcomplete : ∀ M ∈ Ms, Complete keys M)
    (hsep : X.Separates Ms) : LosslessRun X .new Ms ↔ (∀ M ∈ Ms, Readable X M) ∧ Ms.IsChain Separated := by
  cases Ms with
  | nil => simp [LosslessRun]
  | cons M Ms =>
    have hM := hcomplete M mem_cons_self
    have hfirst := first_lossless_iff hM (hsep.mono (by simp))
    rw [LosslessRun, hfirst, forall_mem_cons, and_assoc]
    refine and_congr_right fun hr => ?_
    rw [(hfirst.mpr hr).poll_eq hM hr, later_lossless_iff hcomplete hr hsep]

end

instance (X : Externals) (Ms : List NetmapResponse) : Decidable (X.Separates Ms) :=
  inferInstanceAs (Decidable (∀ a ∈ Ms.flatMap NetmapResponse.hashed,
    ∀ b ∈ Ms.flatMap NetmapResponse.hashed, nonzero (X.hash64 a) = nonzero (X.hash64 b) → a = b))

def polynomial : Externals where
  sha256 b := beBytes 8 (b.foldl (fun h x => (h * 257 + x.toNat + 1) % 2305843009213693951) 0)
  parseIp _ := none
  ipText _ := []
  isSocketAddr _ := false

def peerComesAndGoes : List NetmapResponse :=
  [allowing twoProviders, { allowing twoProviders with peers := [dualStack] }, allowing twoProviders]

theorem sync_lossless_peerComesAndGoes : LosslessRun polynomial .new peerComesAndGoes := by
  refine (@sync_lossless_iff polynomial (fun _ _ => (.empty, .empty, .empty)) peerComesAndGoes
    ?_ ?_).mpr ⟨?_, ?_⟩
  · intro M hM
    fin_cases hM <;> exact ⟨rfl, rfl, by decide +kernel, by decide +kernel, rfl, by decide, by decide +kernel⟩
  · decide +kernel
  · intro M hM
    fin_cases hM <;> exact ⟨by decide +kernel, rfl, rfl, rfl⟩
  · refine .cons_cons ⟨by decide +kernel, by decide +kernel⟩
      (.cons_cons ⟨by decide +kernel, by decide +kernel⟩ (.singleton _))

theorem changed_regions_answered_unchanged :
    polynomial.Separates [allowing twoProviders, allowing oneProvider]
      ∧ Complete (fun _ _ => (.empty, .empty, .empty)) (allowing twoProviders)
      ∧ Complete (fun _ _ => (.empty, .empty, .empty)) (allowing oneProvider)
      ∧ ¬ LosslessRun polynomial .new [allowing twoProviders, allowing oneProvider] := by
  have hcomplete (regions : List RegionsEntry) (h : regions.Pairwise fun a b => a.provider < b.provider) :
      Complete (fun _ _ => (.empty, .empty, .empty)) (allowing regions) :=
    ⟨rfl, rfl, .nil, by simp [allowing], rfl, by simp [allowing], h⟩
  refine ⟨by decide +kernel, hcomplete _ (by decide +kernel), hcomplete _ (by decide +kernel), ?_⟩
  intro ⟨_, h, _⟩
  exact absurd (h.unchanged (by decide +kernel)) (by decide +kernel)

end Karst.Control
