import Karst.Foundations.Announcements
import Karst.Relay.Isolation

/-!
# Mesh presence

Relays meshed pairwise, each with a hub of its own.  What one hub queues towards another is delivered
in order to the other's `on_frame`; clients come and go at any of them.
-/

namespace Karst.Relay

open Option Function Announcements Hub
open List hiding Vector

namespace Hub

variable {M G : Type} {h h' : Hub M G} {c id dst : ConnId} {frame : Frame}

def wire (h : Hub M G) (c : ConnId) : List Bytes := (h.queueOf c).map Outbound.bytes

variable {conn : Conn M}

theorem wire_insert (hconns : h'.conns = h.conns.insert id conn) :
    h'.wire c = if c = id then conn.queue.map Outbound.bytes else h.wire c := by
  rw [wire, queueOf, hconns]
  split
  · rename_i hc
    rw [hc, AList.lookup_insert]
    rfl
  · rename_i hc
    rw [AList.lookup_insert_ne hc]
    rfl

theorem wire_erase (hconns : h'.conns = h.conns.erase id) (hc : c ≠ id) : h'.wire c = h.wire c := by
  rw [wire, queueOf, hconns, AList.lookup_erase_ne hc]
  rfl

theorem wire_modify {f : Conn M → Conn M} : (h.modify id f).wire c
      = if c = id then (((h.conns.lookup id).map f).map Conn.queue).getD [] |>.map Outbound.bytes
        else h.wire c := by
  cases hconn : h.conns.lookup id with
  | none =>
    have hmodify : h.modify id f = h := by rw [modify, hconn]
    rw [hmodify]
    by_cases hc : c = id
    · rw [if_pos hc, hc, wire, queueOf, hconn]
      rfl
    · rw [if_neg hc]
  | some conn =>
    have hconns : (h.modify id f).conns = h.conns.insert id (f conn) := by rw [modify, hconn]
    exact wire_insert hconns

theorem wire_meter {meter : Meter} :
    (h.modify id fun conn => { conn with meter := meter }).wire c = h.wire c := by
  rw [wire_modify]
  split
  · rename_i hc
    rw [hc, wire, queueOf]
    cases h.conns.lookup id with
    | none => rfl
    | some conn => rfl
  · rfl

/-! ### Telling the mesh -/

theorem cfg_modify (f : Conn M → Conn M) : (h.modify id f).cfg = h.cfg := by
  unfold modify
  split <;> rfl

theorem presence_modify (f : Conn M → Conn M) : (h.modify id f).presence = h.presence := by
  unfold modify
  split <;> rfl

theorem enqueueAttributed_fst {mapping : Option M} : (h.enqueueAttributed dst frame mapping).1
      = h.modify dst fun conn => { conn with queue := makeRoom h.cfg.queueDepth conn.queue
        ++ [⟨frame.toVec, deliveryOf frame conn.peer mapping⟩] } := by
  unfold enqueueAttributed
  split
  · rename_i hnone
    rw [modify, hnone]
  · rfl

theorem enqueue_eq : h.enqueue dst frame = h.modify dst fun conn => { conn with
      queue := makeRoom h.cfg.queueDepth conn.queue ++ [⟨frame.toVec, deliveryOf frame conn.peer none⟩] } :=
  enqueueAttributed_fst

theorem makeRoom_eq {depth : ℕ} {queue : List (Outbound M)} (hroom : queue.length < depth) :
    makeRoom depth queue = queue := by
  rw [makeRoom, Nat.sub_eq_zero_of_le hroom, drop_zero]

def Roomy (h : Hub M G) (c : ConnId) : Prop :=
  (h.peerOf c).isSome ∧ (h.wire c).length < h.cfg.queueDepth

theorem wire_enqueue (hroom : h.Roomy dst) :
    (h.enqueue dst frame).wire c = if c = dst then h.wire c ++ [frame.toVec] else h.wire c := by
  obtain ⟨hsome, hlen⟩ := hroom
  rw [enqueue_eq, wire_modify]
  split
  · rename_i hc
    subst hc
    cases hconn : h.conns.lookup c with
    | none =>
      rw [peerOf, hconn] at hsome
      cases hsome
    | some conn =>
      have hqueue : h.queueOf c = conn.queue := by rw [queueOf, hconn]; rfl
      rw [wire, hqueue, length_map] at hlen
      rw [wire, hqueue]
      simp [makeRoom_eq hlen]
  · rfl

theorem Roomy.enqueue (hroom : h.Roomy c) (hroom' : h.Roomy dst) (hne : c ≠ dst) :
    (h.enqueue dst frame).Roomy c := by
  have hpeer : (h.enqueue dst frame).peerOf c = h.peerOf c :=
    (h.enqueues_enqueueAttributed dst frame none).same.peerOf c
  rw [Roomy, wire_enqueue hroom', if_neg hne, hpeer, enqueue_eq, cfg_modify]
  exact hroom

theorem wire_foldl_enqueue {l : List ConnId} (hnodup : l.Nodup) (hroom : ∀ c ∈ l, h.Roomy c) :
    (l.foldl (fun h peer => h.enqueue peer frame) h).wire c
      = if c ∈ l then h.wire c ++ [frame.toVec] else h.wire c := by
  induction l generalizing h with
  | nil => rfl
  | cons dst l ih =>
    obtain ⟨hdst, hnodup⟩ := nodup_cons.mp hnodup
    have hroomDst := hroom dst mem_cons_self
    have hrest (c : ConnId) (hc : c ∈ l) : (h.enqueue dst frame).Roomy c :=
      (hroom c (mem_cons_of_mem dst hc)).enqueue hroomDst fun heq => hdst (heq ▸ hc)
    rw [foldl_cons, ih hnodup hrest, wire_enqueue hroomDst]
    by_cases hc : c = dst
    · subst hc
      rw [if_neg hdst, if_pos rfl, if_pos mem_cons_self]
    · simp [hc]

theorem wire_gossip {order : Arrangement ConnId} (hnodup : (h.byMesh.entries.map Sigma.snd).Nodup)
    (hroom : ∀ c ∈ h.byMesh.entries.map Sigma.snd, h.Roomy c) : (h.gossip order frame).wire c
      = if c ∈ h.byMesh.entries.map Sigma.snd then h.wire c ++ [frame.toVec] else h.wire c := by
  have hperm := order.perm (h.byMesh.entries.map Sigma.snd)
  rw [gossip, valuesIn, wire_foldl_enqueue (hperm.nodup_iff.mpr hnodup)
    fun c hc => hroom c (hperm.mem_iff.mp hc)]
  exact if_congr hperm.mem_iff rfl rfl

theorem foldl_enqueue_cfg_presence (frame : Frame) (l : List ConnId) (h : Hub M G) :
    (l.foldl (fun h peer => h.enqueue peer frame) h).cfg = h.cfg
      ∧ (l.foldl (fun h peer => h.enqueue peer frame) h).presence = h.presence := by
  induction l generalizing h with
  | nil => exact ⟨rfl, rfl⟩
  | cons dst l ih =>
    rw [foldl_cons, (ih _).1, (ih _).2, enqueue_eq, cfg_modify, presence_modify]
    exact ⟨rfl, rfl⟩

theorem wire_takeOutbound : (h.takeOutbound id).1.wire c = if c = id then (h.wire c).tail else h.wire c := by
  rw [takeOutbound, wire_modify]
  split
  · rename_i hc
    rw [hc, wire, queueOf]
    cases h.conns.lookup id with
    | none => rfl
    | some conn => exact map_tail
  · rfl

theorem disconnect_client (hconn : h.conns.lookup id = some conn) {nodeId : Id}
    {aquifer : AquiferId} (hpeer : conn.peer = .client nodeId aquifer)
    (order : Arrangement ConnId) : h.disconnect order id = if h.byNode.lookup nodeId = some id then
        (gossip { h with conns := h.conns.erase id, byNode := h.byNode.erase nodeId } order
          (.peerGone nodeId .disconnected), some nodeId)
      else ({ h with conns := h.conns.erase id }, none) := by
  simp only [disconnect, hconn, hpeer]

theorem onFrame_metered (hconn : h.conns.lookup id = some conn) {nowMs : ℕ}
    (hmeter : (conn.meter.admitFrame frame.encodedLen nowMs).2 = true)
    (reserve : Reserve M G) (roster : Roster) (mapping : Option M) :
    h.onFrame reserve id frame roster nowMs mapping = (h.modify id fun c => { c with
          meter := (conn.meter.admitFrame frame.encodedLen nowMs).1 }).handle reserve id conn.peer
          frame roster nowMs mapping := by
  have hpair : conn.meter.admitFrame frame.encodedLen nowMs
      = ((conn.meter.admitFrame frame.encodedLen nowMs).1, true) := Prod.ext rfl hmeter
  rw [onFrame, hconn]
  dsimp only
  rw [hpair]

theorem takeOutbound_snd : (h.takeOutbound id).2.map Outbound.bytes = (h.wire id).head? := by
  rw [takeOutbound, wire, queueOf]
  cases h.conns.lookup id with
  | none => rfl
  | some conn => exact (head?_map ..).symm

end Hub

/-! ### The mesh -/

structure Mesh where
  relays : List Id
  nodup : relays.Nodup
  /-- At the first relay, the connection to the second. -/
  port : Id → Id → ConnId
  port_inj : ∀ a, ∀ b ∈ relays, ∀ c ∈ relays, port a b = port a c → b = c
  cfg : Id → Config
  /-- When a relay's connections to the others were made. -/
  upAt : Id → ℕ

/-- A client comes to a relay or goes from it, or a link delivers. -/
inductive MeshEvent where
  | connect (relay : Id) (order : Arrangement ConnId) (conn : ConnId) (nodeId : Id)
      (aquifer : AquiferId) (nowMs : ℕ)
  | disconnect (relay : Id) (order : Arrangement ConnId) (conn : ConnId)
  | deliver (src dst : Id) (roster : Roster) (nowMs : ℕ)

def frontFrame (bytes : Bytes) : Option Frame := (decode bytes).toOption.join.map Prod.fst

theorem frontFrame_toVec {f : Frame} (hf : f.WellFormed) : frontFrame f.toVec = some f := by
  have hdecode : decode f.toVec = .ok (some (f, f.toVec.length)) :=
    decode_eq_some.mpr ⟨hf, f.toVec_length, [], (append_nil _).symm⟩
  rw [frontFrame, hdecode]
  rfl

namespace Mesh

variable {M G : Type} (net : Mesh)

def others (a : Id) : List Id := net.relays.filter fun b => b ≠ a

theorem mem_others {a b : Id} : b ∈ net.others a ↔ b ∈ net.relays ∧ b ≠ a := by
  rw [others, mem_filter, decide_eq_true_eq]

def start (a : Id) : Hub M G :=
  (net.others a).foldl (fun h b =>
    (h.admitConn .asStored .asStored (net.port a b) (.mesh b) (net.upAt a)).1) (.new (net.cfg a))

def arriving (s : Id → Hub M G) (src dst : Id) : Option Frame :=
  ((s src).takeOutbound (net.port src dst)).2.bind fun out => frontFrame out.bytes

section

variable (reserve : Reserve M G)

/-- What is written at one end of a link is a frame for the hub at the other. -/
def deliver (s : Id → Hub M G) (src dst : Id) (roster : Roster) (nowMs : ℕ) : Id → Hub M G :=
  let taken := Function.update s src ((s src).takeOutbound (net.port src dst)).1
  match net.arriving s src dst with
  | none => taken
  | some frame =>
    Function.update taken dst ((taken dst).onFrame reserve (net.port dst src) frame roster nowMs none).1

def step (s : Id → Hub M G) : MeshEvent → Id → Hub M G
  | .connect relay order conn nodeId aquifer nowMs =>
    Function.update s relay ((s relay).admitConn order .asStored conn (.client nodeId aquifer) nowMs).1
  | .disconnect relay order conn => Function.update s relay ((s relay).disconnect order conn).1
  | .deliver src dst roster nowMs => net.deliver reserve s src dst roster nowMs

def roomy (s : Id → Hub M G) (a : Id) : Bool :=
  (net.others a).all fun b =>
    decide (((s a).queueOf (net.port a b)).length < (s a).cfg.queueDepth)

/-- Connections get fresh ids and the links stay up; no queue overflows and no frame is dropped. -/
def reliable (s : Id → Hub M G) : MeshEvent → Bool
  | .connect relay _ conn _ _ _ =>
    relay ∈ net.relays && ((s relay).conns.lookup conn).isNone && net.roomy s relay
  | .disconnect relay _ conn =>
    relay ∈ net.relays && ((s relay).peerOf conn).all (fun peer => peer.nodeId.isSome) && net.roomy s relay
  | .deliver src dst _ nowMs =>
    src ∈ net.relays && dst ∈ net.others src && (net.arriving s src dst).all fun frame =>
        ((s dst).conns.lookup (net.port dst src)).all fun conn =>
          (conn.meter.admitFrame frame.encodedLen nowMs).2

def run (evs : List MeshEvent) : Id → Hub M G := Runs.run (net.step reserve) net.start evs

/-- A `PeerPresent` that is delivered: to whom, about whom, from whom. -/
def announced (s : Id → Hub M G) : MeshEvent → Option (Id × Id × Id)
  | .deliver src dst _ _ =>
    match net.arriving s src dst with
    | some (.peerPresent nodeId) => some (dst, nodeId, src)
    | _ => none
  | _ => none

def lastAnnounced (evs : List MeshEvent) (a nodeId : Id) : Option Id :=
  ((Runs.trace (net.step reserve) net.announced (net.start : Id → Hub M G) evs).filter
    fun r => r.1 = a ∧ r.2.1 = nodeId).getLast?.map fun r => r.2.2

end

def notified (s : Id → Hub M G) : MeshEvent → Option (Announcements.Event Id Id)
  | .connect relay _ _ nodeId _ _ => some (.arrive relay nodeId)
  | .disconnect relay order conn => ((s relay).disconnect order conn).2.map (.leave relay)
  | .deliver src dst _ _ => some (.deliver src dst)

/-! ### The hubs announce -/

def noticeFrame : Notice Id → Frame
  | .arrived nodeId => .peerPresent nodeId
  | .gone nodeId => .peerGone nodeId .disconnected

def learned (presence : AList fun _ : Id => Id) (relay : Id) : Notice Id → AList fun _ : Id => Id
  | .arrived n => presence.insert n relay
  | .gone n => if presence.lookup n = some relay then presence.erase n else presence

theorem handle_notice {reserve : Reserve M G} {h : Hub M G} {id : ConnId} {relay : Id}
    {notice : Notice Id} {roster : Roster} {nowMs : ℕ} {mapping : Option M} :
    (h.handle reserve id (.mesh relay) (noticeFrame notice) roster nowMs mapping).1
      = { h with presence := learned h.presence relay notice } := by
  cases notice with
  | arrived n => rfl
  | gone n =>
    show (if h.presence.lookup n = some relay then { h with presence := h.presence.erase n } else h)
      = { h with presence := if h.presence.lookup n = some relay then h.presence.erase n
          else h.presence }
    by_cases hown : h.presence.lookup n = some relay
    · rw [if_pos hown, if_pos hown]
    · rw [if_neg hown, if_neg hown]

theorem lookup_learned {presence : AList fun _ : Id => Id} {relay : Id} {notice : Notice Id}
    {n : Id} : (learned presence relay notice).lookup n
      = learn (fun k => presence.lookup k) relay notice n := by
  cases notice with
  | arrived k =>
    show (presence.insert k relay).lookup n = update (fun k => presence.lookup k) k (some relay) n
    by_cases hn : n = k
    · rw [hn, AList.lookup_insert, update_self]
    · rw [AList.lookup_insert_ne hn, update_of_ne hn]
  | gone k =>
    unfold learned learn
    dsimp only
    by_cases hown : presence.lookup k = some relay
    · rw [if_pos hown, if_pos hown]
      by_cases hn : n = k
      · rw [hn, AList.lookup_erase, update_self]
      · rw [AList.lookup_erase_ne hn, update_of_ne hn]
    · rw [if_neg hown, if_neg hown]

/-- A hub as one place of the announcement protocol: who is there, what its links carry, its table. -/
structure Shows (a : Id) (h : Hub M G) (clients : Id → Bool) (links : Id → List (Notice Id))
    (owners : Id → Option Id) : Prop where
  cfg : h.cfg = net.cfg a
  byMesh : (h.byMesh.entries.map Sigma.snd).Perm ((net.others a).map (net.port a))
  peer : ∀ b ∈ net.others a, h.peerOf (net.port a b) = some (.mesh b)
  here : ∀ n, clients n = (h.byNode.lookup n).isSome
  link : ∀ b ∈ net.others a, h.wire (net.port a b) = (links b).map fun k => (noticeFrame k).toVec
  table : ∀ n, owners n = h.presence.lookup n
  owner : ∀ n b, owners n = some b → b ∈ net.others a

def Simulates (s : Id → Hub M G) (m : Announcements.Mesh Id Id) : Prop :=
  ∀ a ∈ net.relays, net.Shows a (s a) (m.here a) (m.link a) (m.table a)

section

variable {net} {a b : Id} {h h' : Hub M G} {clients : Id → Bool} {links : Id → List (Notice Id)}
  {owners : Id → Option Id}

theorem Shows.ports_nodup (hs : net.Shows a h clients links owners) :
    (h.byMesh.entries.map Sigma.snd).Nodup := by
  refine hs.byMesh.nodup_iff.mpr ((net.nodup.filter _).map_on ?_)
  intro b hb c hc hport
  exact net.port_inj a b (net.mem_others.mp hb).1 c (net.mem_others.mp hc).1 hport

theorem Shows.port_inj {c : Id} (hb : b ∈ net.others a) (hc : c ∈ net.others a)
    (hport : net.port a b = net.port a c) : b = c :=
  net.port_inj a b (net.mem_others.mp hb).1 c (net.mem_others.mp hc).1 hport

variable (hs : net.Shows a h clients links owners)
include hs

theorem Shows.of_eq {clients' : Id → Bool}
    (hcfg : h'.cfg = h.cfg) (hmesh : h'.byMesh = h.byMesh) (hpresence : h'.presence = h.presence)
    (hpeer : ∀ b ∈ net.others a, h'.peerOf (net.port a b) = h.peerOf (net.port a b))
    (hwire : ∀ b ∈ net.others a, h'.wire (net.port a b) = h.wire (net.port a b))
    (hhere : ∀ n, clients' n = (h'.byNode.lookup n).isSome) : net.Shows a h' clients' links owners where
  cfg := hcfg.trans hs.cfg
  byMesh := hmesh ▸ hs.byMesh
  peer := fun b hb => (hpeer b hb).trans (hs.peer b hb)
  here := hhere
  link := fun b hb => (hwire b hb).trans (hs.link b hb)
  table := fun n => by rw [hpresence]; exact hs.table n
  owner := hs.owner

theorem Shows.gossip (order : Arrangement ConnId)
    (notice : Notice Id) (hroom : ∀ b ∈ net.others a, (links b).length < (net.cfg a).queueDepth) :
    net.Shows a (h.gossip order (noticeFrame notice)) clients (fun b => links b ++ [notice])
      owners := by
  have hcontrol : (noticeFrame notice).isControl = true := by cases notice <;> rfl
  have hsame := (h.enqueues_gossip order hcontrol).same
  have hkept := foldl_enqueue_cfg_presence (noticeFrame notice) (valuesIn order h.byMesh) h
  have hroomy c (hc : c ∈ h.byMesh.entries.map Sigma.snd) : h.Roomy c := by
    obtain ⟨b, hb, rfl⟩ := mem_map.mp (hs.byMesh.mem_iff.mp hc)
    refine ⟨by rw [hs.peer b hb]; rfl, ?_⟩
    rw [hs.link b hb, length_map, hs.cfg]
    exact hroom b hb
  refine ⟨hkept.1.trans hs.cfg, ?_, ?_, ?_, ?_, ?_, hs.owner⟩
  · rw [hsame.byMesh]
    exact hs.byMesh
  · intro b hb
    rw [hsame.peerOf]
    exact hs.peer b hb
  · intro n
    rw [hsame.byNode]
    exact hs.here n
  · intro b hb
    have hport : net.port a b ∈ h.byMesh.entries.map Sigma.snd :=
      hs.byMesh.mem_iff.mpr (mem_map_of_mem hb)
    rw [wire_gossip hs.ports_nodup hroomy, if_pos hport, hs.link b hb]
    simp
  · intro n
    rw [hs.table n]
    exact congrArg (AList.lookup n) hkept.2.symm

theorem Shows.connect {conn : ConnId} (hfresh : h.conns.lookup conn = none)
    (hroom : ∀ b ∈ net.others a, (links b).length < (net.cfg a).queueDepth)
    (order : Arrangement ConnId) (n : Id) (aquifer : AquiferId) (nowMs : ℕ) :
    net.Shows a (h.admitConn order .asStored conn (.client n aquifer) nowMs).1 (update clients n true)
      (if clients n then links else fun b => links b ++ [.arrived n]) owners := by
  have hne (b : Id) (hb : b ∈ net.others a) : net.port a b ≠ conn := by
    intro hport
    have hpeer := hs.peer b hb
    rw [hport, peerOf, hfresh] at hpeer
    cases hpeer
  have hinsert : net.Shows a { h with
      byNode := h.byNode.insert n conn
      conns := h.conns.insert conn ⟨.client n aquifer, [], .new h.cfg.clientBudget nowMs, none⟩ }
      (update clients n true) links owners := by
    refine hs.of_eq rfl rfl rfl ?_ ?_ ?_
    · intro b hb
      rw [peerOf_insert rfl, if_neg (hne b hb)]
    · intro b hb
      rw [wire_insert rfl, if_neg (hne b hb)]
    · intro k
      by_cases hk : k = n
      · rw [hk, update_self]
        rw [AList.lookup_insert, isSome_some]
      · rw [update_of_ne hk]
        rw [AList.lookup_insert_ne hk]
        exact hs.here k
  have hprev := hs.here n
  unfold admitConn
  dsimp only
  cases hlookup : h.byNode.lookup n with
  | none =>
    rw [hlookup] at hprev
    rw [if_pos isNone_none, hprev]
    exact hinsert.gossip order (.arrived n) hroom
  | some prev =>
    rw [hlookup] at hprev
    rw [if_neg (by rw [isNone_some]; decide), hprev]
    exact hinsert

theorem Shows.disconnect {conn : ConnId}
    (hclient : (h.peerOf conn).all (fun peer => peer.nodeId.isSome) = true)
    (hroom : ∀ b ∈ net.others a, (links b).length < (net.cfg a).queueDepth)
    (order : Arrangement ConnId) : ((h.disconnect order conn).2 = none
        ∧ net.Shows a (h.disconnect order conn).1 clients links owners)
      ∨ ∃ n, (h.disconnect order conn).2 = some n ∧ clients n = true
        ∧ net.Shows a (h.disconnect order conn).1 (update clients n false)
          (fun b => links b ++ [.gone n]) owners := by
  have hne (b : Id) (hb : b ∈ net.others a) : net.port a b ≠ conn := by
    intro hport
    rw [← hport, hs.peer b hb] at hclient
    cases hclient
  have herase (byNode : AList fun _ : Id => ConnId) {clients' : Id → Bool}
      (hhere : ∀ n, clients' n = (byNode.lookup n).isSome) :
      net.Shows a { h with byNode := byNode, conns := h.conns.erase conn } clients' links owners := by
    refine hs.of_eq rfl rfl rfl ?_ ?_ hhere
    · intro b hb
      rw [peerOf_erase rfl, if_neg (hne b hb)]
    · intro b hb
      exact wire_erase rfl (hne b hb)
  cases hconn : h.conns.lookup conn with
  | none =>
    have hnone : h.disconnect order conn = (h, none) := by rw [Hub.disconnect, hconn]
    rw [hnone]
    exact .inl ⟨rfl, hs⟩
  | some c =>
    rw [peerOf, hconn, map_some, all_some] at hclient
    cases hpeer : c.peer with
    | mesh relayId =>
      rw [hpeer] at hclient
      cases hclient
    | client n aquifer =>
      rw [disconnect_client hconn hpeer]
      by_cases hown : h.byNode.lookup n = some conn
      · rw [if_pos hown]
        refine .inr ⟨n, rfl, ?_, ?_⟩
        · rw [hs.here n, hown, isSome_some]
        · refine (herase (h.byNode.erase n) ?_).gossip order (.gone n) hroom
          intro k
          by_cases hk : k = n
          · rw [hk, update_self, AList.lookup_erase, isSome_none]
          · rw [update_of_ne hk, AList.lookup_erase_ne hk]
            exact hs.here k
      · rw [if_neg hown]
        exact .inl ⟨rfl, herase h.byNode hs.here⟩

theorem Shows.takeOutbound (hb : b ∈ net.others a) : net.Shows a (h.takeOutbound (net.port a b)).1 clients
      (update links b (links b).tail) owners := by
  have hsame := (h.enqueues_takeOutbound (net.port a b)).same
  refine ⟨?_, ?_, ?_, ?_, ?_, ?_, hs.owner⟩
  · exact (cfg_modify _).trans hs.cfg
  · rw [hsame.byMesh]
    exact hs.byMesh
  · intro c hc
    rw [hsame.peerOf]
    exact hs.peer c hc
  · intro n
    rw [hsame.byNode]
    exact hs.here n
  · intro c hc
    rw [wire_takeOutbound, hs.link c hc]
    by_cases hcb : c = b
    · rw [if_pos (congrArg (net.port a) hcb), hcb, update_self, map_tail]
    · rw [if_neg fun hport => hcb (Shows.port_inj hc hb hport), update_of_ne hcb]
  · intro n
    rw [hs.table n]
    exact congrArg (AList.lookup n) (presence_modify _).symm

omit hs

theorem Shows.arriving {s : Id → Hub M G} (hs : net.Shows a (s a) clients links owners)
    (hb : b ∈ net.others a) : net.arriving s a b = (links b).head?.map noticeFrame := by
  have hfront : net.arriving s a b
      = (((s a).takeOutbound (net.port a b)).2.map Outbound.bytes).bind frontFrame := by
    rw [bind_map]
    rfl
  rw [hfront, takeOutbound_snd, hs.link b hb]
  cases links b with
  | nil => rfl
  | cons notice rest => exact frontFrame_toVec (by cases notice <;> trivial)

theorem Shows.onFrame (hs : net.Shows a h clients links owners) (hb : b ∈ net.others a)
    (notice : Notice Id) {nowMs : ℕ} (hmeter : (h.conns.lookup (net.port a b)).all (fun conn =>
      (conn.meter.admitFrame (noticeFrame notice).encodedLen nowMs).2) = true)
    (reserve : Reserve M G) (roster : Roster) :
    net.Shows a (h.onFrame reserve (net.port a b) (noticeFrame notice) roster nowMs none).1 clients
      links (learn owners b notice) := by
  have hsame := (h.enqueues_onFrame reserve (net.port a b) (noticeFrame notice) roster nowMs none).same
  obtain ⟨conn, hconn, hmesh⟩ := map_eq_some_iff.mp (hs.peer b hb)
  rw [hconn, all_some] at hmeter
  have hframe := onFrame_metered hconn hmeter reserve roster none
  rw [hmesh] at hframe
  refine ⟨?_, ?_, ?_, ?_, ?_, ?_, ?_⟩
  · rw [hframe, handle_notice]
    exact (cfg_modify _).trans hs.cfg
  · rw [hsame.byMesh]
    exact hs.byMesh
  · intro c hc
    rw [hsame.peerOf]
    exact hs.peer c hc
  · intro n
    rw [hsame.byNode]
    exact hs.here n
  · intro c hc
    rw [hframe, handle_notice, ← hs.link c hc]
    exact wire_meter
  · intro n
    rw [hframe, handle_notice, funext hs.table, ← lookup_learned]
    exact congrArg (fun t => (learned t b notice).lookup n) (presence_modify _).symm
  · intro n c hc
    rcases learn_eq_some hc with rfl | hold
    · exact hb
    · exact hs.owner n c hold

theorem Shows.room {s : Id → Hub M G} (hs : net.Shows a (s a) clients links owners)
    (hroomy : net.roomy s a = true) : ∀ b ∈ net.others a, (links b).length < (net.cfg a).queueDepth := by
  intro b hb
  have hlen := decide_eq_true_eq.mp (all_eq_true.mp hroomy b hb)
  have hlink := congrArg length (hs.link b hb)
  rw [wire, length_map, length_map] at hlink
  rw [← hlink, ← hs.cfg]
  exact hlen

end

/-! ### The simulation -/

section

variable {net} {s : Id → Hub M G} {m : Announcements.Mesh Id Id}

variable {r : Id}

variable (hs : net.Simulates s m)
include hs

theorem Simulates.update {m' : Announcements.Mesh Id Id} {h : Hub M G}
    (hshows : net.Shows r h (m'.here r) (m'.link r) (m'.table r))
    (hother : ∀ a, a ≠ r → m'.here a = m.here a ∧ m'.link a = m.link a ∧ m'.table a = m.table a) :
    net.Simulates (update s r h) m' := by
  intro a ha
  by_cases har : a = r
  · rw [har, update_self]
    exact hshows
  · obtain ⟨hhere, hlink, htable⟩ := hother a har
    rw [update_of_ne har, hhere, hlink, htable]
    exact hs a ha

theorem Simulates.connect (hr : r ∈ net.relays) {conn : ConnId}
    (hfresh : (s r).conns.lookup conn = none) (hroomy : net.roomy s r = true)
    (order : Arrangement ConnId) (n : Id) (aquifer : AquiferId) (nowMs : ℕ) :
    net.Simulates (Function.update s r ((s r).admitConn order .asStored conn (.client n aquifer) nowMs).1)
      (Announcements.step m (.arrive r n)) := by
  have hshows := (hs r hr).connect hfresh ((hs r hr).room hroomy) order n aquifer nowMs
  rw [Announcements.step]
  by_cases hhere : m.here r n = true
  · rw [if_pos hhere] at hshows ⊢
    rw [← hhere, update_eq_self] at hshows
    exact hs.update hshows fun _ _ => ⟨rfl, rfl, rfl⟩
  · rw [if_neg hhere] at hshows ⊢
    refine hs.update ?_ ?_
    · simpa only [Announcements.tell, update_self] using hshows
    · intro a ha
      exact ⟨update_of_ne ha _ _, update_of_ne ha _ _, rfl⟩

theorem Simulates.disconnect (hr : r ∈ net.relays) {conn : ConnId}
    (hclient : ((s r).peerOf conn).all (fun peer => peer.nodeId.isSome) = true)
    (hroomy : net.roomy s r = true) (order : Arrangement ConnId) :
    net.Simulates (Function.update s r ((s r).disconnect order conn).1)
      (((s r).disconnect order conn).2.elim m fun n => Announcements.step m (.leave r n)) := by
  rcases (hs r hr).disconnect hclient ((hs r hr).room hroomy) order with
    ⟨hnone, hshows⟩ | ⟨n, hsome, hhere, hshows⟩
  · rw [hnone]
    exact hs.update hshows fun _ _ => ⟨rfl, rfl, rfl⟩
  · rw [hsome, elim_some, Announcements.step, if_pos hhere]
    refine hs.update ?_ ?_
    · simpa only [Announcements.tell, update_self] using hshows
    · intro a ha
      exact ⟨update_of_ne ha _ _, update_of_ne ha _ _, rfl⟩

theorem Simulates.deliver {a b : Id} (ha : a ∈ net.relays)
    (hb : b ∈ net.others a) {nowMs : ℕ} (hmeter : (net.arriving s a b).all (fun frame =>
      ((s b).conns.lookup (net.port b a)).all fun conn =>
        (conn.meter.admitFrame frame.encodedLen nowMs).2) = true)
    (reserve : Reserve M G) (roster : Roster) :
    net.Simulates (net.deliver reserve s a b roster nowMs) (Announcements.step m (.deliver a b)) := by
  obtain ⟨hbr, hba⟩ := net.mem_others.mp hb
  have hab : a ∈ net.others b := net.mem_others.mpr ⟨ha, hba.symm⟩
  have htaken := (hs a ha).takeOutbound hb
  have harriving := (hs a ha).arriving hb
  rw [Mesh.deliver, Announcements.step]
  cases hlink : m.link a b with
  | nil =>
    rw [hlink] at harriving htaken
    rw [harriving]
    refine hs.update ?_ fun _ _ => ⟨rfl, rfl, rfl⟩
    rwa [tail_nil, ← hlink, update_eq_self] at htaken
  | cons notice rest =>
    rw [hlink] at harriving htaken
    rw [harriving, head?_cons, map_some, all_some] at hmeter
    rw [harriving]
    rw [update_of_ne hba]
    have hfirst : net.Simulates (Function.update s a ((s a).takeOutbound (net.port a b)).1)
        { m with link := Function.update m.link a (Function.update (m.link a) b rest) } := by
      refine hs.update ?_ ?_
      · simpa only [update_self, tail_cons] using htaken
      · intro c hc
        exact ⟨rfl, update_of_ne hc _ _, rfl⟩
    refine hfirst.update ?_ ?_
    · have hbefore := hfirst b hbr
      rw [update_of_ne hba] at hbefore
      have hafter := hbefore.onFrame hab notice hmeter reserve roster
      simpa only [receive, update_self] using hafter
    · intro c hc
      exact ⟨rfl, rfl, update_of_ne hc _ _⟩

/-- **One step** of the mesh is a step of the protocol, or none. -/
theorem simulates_step {e : MeshEvent}
    (hreliable : net.reliable s e = true) (reserve : Reserve M G) :
    net.Simulates (net.step reserve s e) ((notified s e).elim m (Announcements.step m)) := by
  cases e with
  | connect r order conn n aquifer nowMs =>
    obtain ⟨hboth, hroomy⟩ := Bool.and_eq_true_iff.mp hreliable
    obtain ⟨hr, hfresh⟩ := Bool.and_eq_true_iff.mp hboth
    exact hs.connect (decide_eq_true_eq.mp hr) (Option.isNone_iff_eq_none.mp hfresh) hroomy order n
      aquifer nowMs
  | disconnect r order conn =>
    obtain ⟨hboth, hroomy⟩ := Bool.and_eq_true_iff.mp hreliable
    obtain ⟨hr, hclient⟩ := Bool.and_eq_true_iff.mp hboth
    have hdisconnect := hs.disconnect (decide_eq_true_eq.mp hr) hclient hroomy order
    rw [notified]
    cases hleft : ((s r).disconnect order conn).2 with
    | none => rwa [hleft] at hdisconnect
    | some n => rwa [hleft] at hdisconnect
  | deliver a b roster nowMs =>
    obtain ⟨hboth, hmeter⟩ := Bool.and_eq_true_iff.mp hreliable
    obtain ⟨ha, hb⟩ := Bool.and_eq_true_iff.mp hboth
    exact hs.deliver (decide_eq_true_eq.mp ha) (decide_eq_true_eq.mp hb) hmeter reserve roster

theorem Simulates.last {e : MeshEvent} (hreliable : net.reliable s e = true) :
    (net.announced s e = none ∧ ((notified s e).elim m (Announcements.step m)).last = m.last)
      ∨ ∃ b k c, net.announced s e = some (b, k, c)
        ∧ ∀ a n, ((notified s e).elim m (Announcements.step m)).last a n
          = if b = a ∧ k = n then some c else m.last a n := by
  cases e with
  | connect r order conn n aquifer nowMs =>
    refine .inl ⟨rfl, ?_⟩
    rw [notified, elim_some, Announcements.step]
    split <;> rfl
  | disconnect r order conn =>
    refine .inl ⟨rfl, ?_⟩
    rw [notified]
    cases ((s r).disconnect order conn).2 with
    | none => rfl
    | some n =>
      rw [map_some, elim_some, Announcements.step]
      split <;> rfl
  | deliver a b roster nowMs =>
    obtain ⟨hboth, -⟩ := Bool.and_eq_true_iff.mp hreliable
    obtain ⟨ha, hb⟩ := Bool.and_eq_true_iff.mp hboth
    have harriving := (hs a (decide_eq_true_eq.mp ha)).arriving (decide_eq_true_eq.mp hb)
    rw [notified, elim_some, Announcements.step, announced, harriving]
    cases m.link a b with
    | nil => exact .inl ⟨rfl, rfl⟩
    | cons notice rest =>
      cases notice with
      | gone k =>
        refine .inl ⟨rfl, ?_⟩
        exact update_eq_self b m.last
      | arrived k =>
        refine .inr ⟨b, k, a, rfl, ?_⟩
        intro c n
        show Function.update m.last b (Function.update (m.last b) k (some a)) c n = _
        by_cases hc : c = b
        · subst hc
          rw [update_self]
          by_cases hn : n = k
          · rw [hn, update_self, if_pos ⟨rfl, rfl⟩]
          · rw [update_of_ne hn, if_neg fun h => hn h.2.symm]
        · rw [update_of_ne hc, if_neg fun h => hc h.1.symm]

omit hs

theorem start_foldl (a : Id) {l : List Id} (hnodup : l.Nodup) (hl : ∀ b ∈ l, b ∈ net.relays) :
    let h : Hub M G := l.foldl (fun h b =>
      (h.admitConn .asStored .asStored (net.port a b) (.mesh b) (net.upAt a)).1) (.new (net.cfg a))
    h.cfg = net.cfg a ∧ h.byNode = ∅ ∧ h.presence = ∅
      ∧ h.byMesh.entries = (l.map fun b => ⟨b, net.port a b⟩).reverse
      ∧ (∀ c, h.wire c = []) ∧ ∀ b ∈ l, h.peerOf (net.port a b) = some (.mesh b) := by
  induction l using reverseRecOn with
  | nil => exact ⟨rfl, rfl, rfl, rfl, fun _ => rfl, by simp⟩
  | append_singleton l b ih =>
    obtain ⟨hnodup, -, hdisjoint⟩ := nodup_append.mp hnodup
    have hb : b ∉ l := fun hmem => hdisjoint b hmem b (mem_singleton_self b) rfl
    have hl' : ∀ c ∈ l, c ∈ net.relays := fun c hc => hl c (mem_append_left _ hc)
    obtain ⟨hcfg, hnode, hpresence, hmesh, hwire, hpeer⟩ := ih hnodup hl'
    rw [foldl_concat]
    set h : Hub M G := l.foldl (fun h b =>
      (h.admitConn .asStored .asStored (net.port a b) (.mesh b) (net.upAt a)).1) (.new (net.cfg a))
    have hkey : b ∉ h.byMesh := by
      rw [AList.mem_keys, AList.keys, keys, hmesh]
      simpa using hb
    have hadmits : (h.admitConn .asStored .asStored (net.port a b) (.mesh b) (net.upAt a)).1 = { h with
          byMesh := h.byMesh.insert b (net.port a b)
          conns := h.conns.insert (net.port a b)
            ⟨.mesh b, [], .new h.cfg.meshBudget (net.upAt a), none⟩ } := by
      rw [admitConn]
      simp only [hnode]
      rfl
    rw [hadmits]
    refine ⟨hcfg, hnode, hpresence, ?_, ?_, ?_⟩
    · rw [AList.entries_insert_of_notMem hkey, hmesh]
      simp
    · intro c
      rw [wire_insert rfl]
      split
      · rfl
      · exact hwire c
    · intro c hc
      rw [peerOf_insert rfl]
      rcases mem_append.mp hc with hc | hc
      · have hport : net.port a c ≠ net.port a b := by
          intro hport
          have hcb := net.port_inj a c (hl' c hc) b (hl b (by simp)) hport
          exact hb (hcb ▸ hc)
        rw [if_neg hport]
        exact hpeer c hc
      · rw [mem_singleton.mp hc, if_pos rfl]

theorem simulates_start : net.Simulates (net.start : Id → Hub M G) empty := by
  intro a ha
  have hnodup : (net.others a).Nodup := net.nodup.filter _
  obtain ⟨hcfg, hnode, hpresence, hmesh, hwire, hpeer⟩ :=
    start_foldl (M := M) (G := G) a hnodup fun b hb => (net.mem_others.mp hb).1
  refine ⟨hcfg, ?_, hpeer, ?_, ?_, ?_, ?_⟩
  · rw [start, hmesh, List.map_reverse, List.map_map]
    exact reverse_perm _
  · intro n
    rw [start, hnode]
    rfl
  · intro b hb
    exact hwire _
  · intro n
    rw [start, hpresence]
    rfl
  · intro n b hb
    cases hb

end

/-! ### Convergence -/

section

variable (reserve : Reserve M G)

variable {evs : List MeshEvent}

theorem lastAnnounced_silent {e : MeshEvent} (h : net.announced (net.run reserve evs) e = none) (a n : Id) :
    net.lastAnnounced reserve (evs ++ [e]) a n = net.lastAnnounced reserve evs a n := by
  rw [lastAnnounced, Runs.trace_concat, show net.announced (Runs.run _ _ evs) e = none from h,
    toList_none, append_nil]
  rfl

variable {b : Id}

theorem lastAnnounced_announced {e : MeshEvent} {k c : Id}
    (h : net.announced (net.run reserve evs) e = some (b, k, c)) (a n : Id) :
    net.lastAnnounced reserve (evs ++ [e]) a n
      = if b = a ∧ k = n then some c else net.lastAnnounced reserve evs a n := by
  rw [lastAnnounced, Runs.trace_concat,
    show net.announced (Runs.run _ _ evs) e = some (b, k, c) from h, toList_some, filter_append]
  split
  · rename_i hself
    simp [hself]
  · rename_i hother
    rw [filter_cons_of_neg (by simpa using hother), filter_nil, append_nil]
    rfl

/-- **A run** of the mesh is a run of the protocol, with its announcements. -/
theorem exists_simulates (evs : List MeshEvent)
    (hreliable : Runs.Along (net.step reserve) net.reliable net.start evs = true) :
    ∃ m, net.Simulates (net.run reserve evs) m ∧ (∀ a b n, Settled m a b n)
      ∧ ∀ a n, m.last a n = net.lastAnnounced reserve evs a n := by
  induction evs using reverseRecOn with
  | nil => exact ⟨_, net.simulates_start, settled_empty, fun _ _ => rfl⟩
  | append_singleton evs e ih =>
    rw [Runs.along_append] at hreliable
    obtain ⟨hevs, he⟩ := Bool.and_eq_true_iff.mp hreliable
    obtain ⟨he, -⟩ := Bool.and_eq_true_iff.mp he
    obtain ⟨m, hs, hsettled, hlast⟩ := ih hevs
    refine ⟨(notified (net.run reserve evs) e).elim m (Announcements.step m), ?_, ?_, ?_⟩
    · rw [run, Runs.run_concat]
      exact simulates_step hs he reserve
    · cases notified (net.run reserve evs) e with
      | none => exact hsettled
      | some e' => exact settled_step hsettled e'
    · intro a n
      rcases hs.last he with ⟨hsilent, hkept⟩ | ⟨b, k, c, hannounced, hnew⟩
      · rw [hkept, hlast, net.lastAnnounced_silent reserve hsilent]
      · rw [hnew, hlast, net.lastAnnounced_announced reserve hannounced]

def Connected (s : Id → Hub M G) (a nodeId : Id) : Prop := ((s a).byNode.lookup nodeId).isSome

def Quiet (s : Id → Hub M G) : Prop :=
  ∀ a ∈ net.relays, ∀ b ∈ net.others a, (s a).queueOf (net.port a b) = []

instance (s : Id → Hub M G) (a nodeId : Id) : Decidable (Connected s a nodeId) :=
  inferInstanceAs (Decidable (_ = true))

instance [DecidableEq M] (s : Id → Hub M G) : Decidable (net.Quiet s) :=
  inferInstanceAs (Decidable (∀ a ∈ net.relays, ∀ b ∈ net.others a, _ = []))

theorem presence_of_quiet (hreliable : Runs.Along (net.step reserve) net.reliable net.start evs = true)
    (hquiet : net.Quiet (net.run reserve evs)) {c : Id} (hb : b ∈ net.relays)
    (hc : c ∈ net.others b) (n : Id) : (net.run reserve evs c).presence.lookup n = some b
      ↔ net.lastAnnounced reserve evs c n = some b ∧ Connected (net.run reserve evs) b n := by
  obtain ⟨m, hs, hsettled, hlast⟩ := net.exists_simulates reserve evs hreliable
  have hlink : m.link b c = [] := by
    have hwire := (hs b hb).link c hc
    rw [wire, hquiet b hb c hc, map_nil] at hwire
    exact map_eq_nil_iff.mp hwire.symm
  have htable := table_of_empty (hsettled b c n) hlink
  rwa [(hs c (net.mem_others.mp hc).1).table, hlast, (hs b hb).here] at htable

theorem owner_of_presence
    (hreliable : Runs.Along (net.step reserve) net.reliable net.start evs = true) {c : Id}
    (hc : c ∈ net.relays) {n : Id} (h : (net.run reserve evs c).presence.lookup n = some b) :
    b ∈ net.others c := by
  obtain ⟨m, hs, -, -⟩ := net.exists_simulates reserve evs hreliable
  exact (hs c hc).owner n b (((hs c hc).table n).trans h)

/-- **Presence.**  Once every link is empty, a table has a node under the relay it is at, exactly if
that relay was the last to announce it. -/
theorem presence_converges (evs : List MeshEvent)
    (hreliable : Runs.Along (net.step reserve) net.reliable net.start evs = true)
    (hquiet : net.Quiet (net.run reserve evs)) (n : Id) :
    ((∀ a ∈ net.relays, ¬ Connected (net.run reserve evs) a n) →
      ∀ c ∈ net.relays, (net.run reserve evs c).presence.lookup n = none)
      ∧ ∀ b ∈ net.relays, (∀ a ∈ net.relays, Connected (net.run reserve evs) a n ↔ a = b) →
        ((∀ c ∈ net.others b, (net.run reserve evs c).presence.lookup n = some b)
          ↔ ∀ c ∈ net.others b, net.lastAnnounced reserve evs c n = some b)
        ∧ ∀ c ∈ net.others b, (net.run reserve evs c).presence.lookup n
          = if net.lastAnnounced reserve evs c n = some b then some b else none := by
  -- an entry names a relay at which the node is
  have hentry (b c : Id) (hc : c ∈ net.relays) (h : (net.run reserve evs c).presence.lookup n = some b) :
      b ∈ net.relays ∧ Connected (net.run reserve evs) b n := by
    obtain ⟨hb, hbc⟩ := net.mem_others.mp (net.owner_of_presence reserve hreliable hc h)
    have hc' : c ∈ net.others b := net.mem_others.mpr ⟨hc, hbc.symm⟩
    exact ⟨hb, ((net.presence_of_quiet reserve hreliable hquiet hb hc' n).mp h).2⟩
  constructor
  · intro hnowhere c hc
    cases hlookup : (net.run reserve evs c).presence.lookup n with
    | none => rfl
    | some b =>
      obtain ⟨hb, hconnected⟩ := hentry b c hc hlookup
      exact absurd hconnected (hnowhere b hb)
  · intro b hb honly
    have hiff (c : Id) (hc : c ∈ net.others b) : (net.run reserve evs c).presence.lookup n = some b
          ↔ net.lastAnnounced reserve evs c n = some b := by
      rw [net.presence_of_quiet reserve hreliable hquiet hb hc n, and_iff_left ((honly b hb).mpr rfl)]
    refine ⟨forall₂_congr hiff, ?_⟩
    intro c hc
    split
    · rename_i hannounced
      exact (hiff c hc).mpr hannounced
    · rename_i hother
      cases hlookup : (net.run reserve evs c).presence.lookup n with
      | none => rfl
      | some b' =>
        obtain ⟨hb', hconnected⟩ := hentry b' c (net.mem_others.mp hc).1 hlookup
        rw [(honly b' hb').mp hconnected] at hlookup
        exact absurd ((hiff c hc).mp hlookup) hother

end

/-! ### A client that roams -/

/-- Relays `1`, `2` and `3`, each with the others' numbers as ports. -/
def threeRelays : Mesh where
  relays := [fit ID_LEN [1], fit ID_LEN [2], fit ID_LEN [3]]
  nodup := by decide
  port := fun _ b => (b.toList.headD 0).toNat
  port_inj := fun _ => by decide
  cfg := fun _ => Hub.standard
  upAt := fun _ => 0

def noRoster : Roster := ⟨fun _ => none, fun _ => none, []⟩

def freeGate (gate : Unit) (_ : Unit) (_ : ℕ) : Unit × Bool := (gate, true)

def visit : List MeshEvent :=
  [.connect (fit ID_LEN [1]) .asStored 10 (fit ID_LEN [9]) [7] 0,
    .deliver (fit ID_LEN [1]) (fit ID_LEN [2]) noRoster 1,
    .deliver (fit ID_LEN [1]) (fit ID_LEN [3]) noRoster 2]

theorem visit_converges : (threeRelays.run freeGate visit (fit ID_LEN [2])).presence.lookup (fit ID_LEN [9])
      = some (fit ID_LEN [1]) :=
  (((threeRelays.presence_converges freeGate visit (by decide +kernel) (by decide +kernel)
    (fit ID_LEN [9])).2 (fit ID_LEN [1]) (by decide +kernel) (by decide +kernel)).1).mpr
    (by decide +kernel) (fit ID_LEN [2]) (by decide +kernel)

/-- Node `9` comes to relay `1` and then to relay `2`; relay `3` hears of the second arrival first.
Then the first connection goes. -/
def roam : List MeshEvent :=
  [.connect (fit ID_LEN [1]) .asStored 10 (fit ID_LEN [9]) [7] 0,
    .connect (fit ID_LEN [2]) .asStored 10 (fit ID_LEN [9]) [7] 1,
    .deliver (fit ID_LEN [2]) (fit ID_LEN [3]) noRoster 2,
    .deliver (fit ID_LEN [1]) (fit ID_LEN [3]) noRoster 3, .disconnect (fit ID_LEN [1]) .asStored 10,
    .deliver (fit ID_LEN [1]) (fit ID_LEN [3]) noRoster 4,
    .deliver (fit ID_LEN [1]) (fit ID_LEN [2]) noRoster 5,
    .deliver (fit ID_LEN [1]) (fit ID_LEN [2]) noRoster 6,
    .deliver (fit ID_LEN [2]) (fit ID_LEN [1]) noRoster 7]

theorem roam_lost : Runs.Along (threeRelays.step freeGate) threeRelays.reliable threeRelays.start roam = true
      ∧ threeRelays.Quiet (threeRelays.run freeGate roam)
      ∧ (∀ a ∈ threeRelays.relays, Connected (threeRelays.run freeGate roam) a (fit ID_LEN [9])
        ↔ a = fit ID_LEN [2])
      ∧ (threeRelays.run freeGate roam (fit ID_LEN [3])).presence.lookup (fit ID_LEN [9]) = none := by
  decide +kernel

end Mesh

end Karst.Relay
