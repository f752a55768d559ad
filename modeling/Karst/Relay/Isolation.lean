import Karst.Relay.Hub

/-!
# Tenant isolation

What the hub puts into its queues, and why.  The tables stay in step with the connections through
replacement and late disconnects; so a packet reaches the connection that is registered for its
destination, and its source is one that may reach it.
-/

namespace Karst.Relay

open Option AList
open List hiding Vector

namespace Frame

def isControl : Frame → Bool
  | .recvPacket _ _ => false
  | .forward _ _ _ => false
  | _ => true

variable {f : Frame}

theorem toVec_inj {g : Frame} (h : f.toVec = g.toVec) : f.frameType = g.frameType ∧ f.body = g.body := by
  obtain ⟨htype, htail⟩ := cons.inj h
  exact ⟨htype, (append_inj htail (by rw [beBytes_length, beBytes_length])).2⟩

theorem toList_append_inj {n : ℕ} {v w : Vector UInt8 n} {a b : Bytes}
    (h : v.toList ++ a = w.toList ++ b) : v = w ∧ a = b := by
  obtain ⟨hv, hab⟩ := append_inj h (by simp)
  exact ⟨Vector.toList_inj.mp hv, hab⟩

theorem eq_recvPacket {src : Id} {payload : Bytes} (h : (recvPacket src payload).toVec = f.toVec) :
    f = .recvPacket src payload := by
  obtain ⟨htype, hbody⟩ := toVec_inj h
  cases f with
  | recvPacket src' payload' =>
    obtain ⟨rfl, rfl⟩ := toList_append_inj hbody
    rfl
  | _ => exact absurd htype (by simp only [frameType]; decide)

theorem eq_forward {src dst : Id} {payload : Bytes}
    (h : (forward src dst payload).toVec = f.toVec) : f = .forward src dst payload := by
  obtain ⟨htype, hbody⟩ := toVec_inj h
  cases f with
  | forward src' dst' payload' =>
    obtain ⟨rfl, hrest⟩ := toList_append_inj hbody
    obtain ⟨rfl, rfl⟩ := toList_append_inj hrest
    rfl
  | _ => exact absurd htype (by simp only [frameType]; decide)

end Frame

namespace Hub

variable {M G : Type} {h h' h'' : Hub M G} {c id : ConnId} {out : Outbound M}

def peerOf (h : Hub M G) (c : ConnId) : Option Admitted := (h.conns.lookup c).map Conn.peer

def queueOf (h : Hub M G) (c : ConnId) : List (Outbound M) :=
  ((h.conns.lookup c).map Conn.queue).getD []

/-! ### What stays and what is queued -/

structure SameRegistry (h h' : Hub M G) : Prop where
  byNode : h'.byNode = h.byNode
  byMesh : h'.byMesh = h.byMesh
  peerOf : ∀ c, h'.peerOf c = h.peerOf c

theorem SameRegistry.refl (h : Hub M G) : SameRegistry h h := ⟨rfl, rfl, fun _ => rfl⟩

theorem SameRegistry.trans (h₁ : SameRegistry h h') (h₂ : SameRegistry h' h'') : SameRegistry h h'' :=
  ⟨h₂.byNode.trans h₁.byNode, h₂.byMesh.trans h₁.byMesh, fun c => (h₂.peerOf c).trans (h₁.peerOf c)⟩

def Gains (h h' : Hub M G) (new : ConnId → Frame → Prop) : Prop :=
  ∀ c out, out ∈ h'.queueOf c → out ∈ h.queueOf c ∨ ∃ f, new c f ∧ out.bytes = f.toVec

section

variable {new new' : ConnId → Frame → Prop}

theorem Gains.refl (h : Hub M G) : Gains h h new := fun _ _ hout => .inl hout

theorem Gains.mono (hg : Gains h h' new) (hle : ∀ c f, new c f → new' c f) : Gains h h' new' := by
  intro c out hout
  rcases hg c out hout with hold | ⟨f, hf, hbytes⟩
  · exact .inl hold
  · exact .inr ⟨f, hle c f hf, hbytes⟩

theorem Gains.trans (h₁ : Gains h h' new) (h₂ : Gains h' h'' new) : Gains h h'' new := by
  intro c out hout
  rcases h₂ c out hout with hold | hnew
  · exact h₁ c out hold
  · exact .inr hnew

end

/-- A change of the queues alone. -/
structure Enqueues (h h' : Hub M G) (new : ConnId → Frame → Prop) : Prop where
  same : SameRegistry h h'
  gains : Gains h h' new

section

variable {new new' : ConnId → Frame → Prop}

theorem Enqueues.refl (h : Hub M G) : Enqueues h h new := ⟨.refl h, .refl h⟩

theorem Enqueues.mono (he : Enqueues h h' new) (hle : ∀ c f, new c f → new' c f) :
    Enqueues h h' new' := ⟨he.same, he.gains.mono hle⟩

theorem Enqueues.trans (h₁ : Enqueues h h' new) (h₂ : Enqueues h' h'' new) : Enqueues h h'' new :=
  ⟨h₁.same.trans h₂.same, h₁.gains.trans h₂.gains⟩

theorem enqueues_foldl {α : Type} {f : Hub M G → α → Hub M G} (hf : ∀ h a, Enqueues h (f h a) new)
    (h : Hub M G) (l : List α) : Enqueues h (l.foldl f h) new := by
  induction l generalizing h with
  | nil => exact .refl h
  | cons a l ih => exact (hf h a).trans (ih (f h a))

theorem enqueues_modify {f : Conn M → Conn M} (hpeer : ∀ conn, (f conn).peer = conn.peer)
    (hqueue : ∀ conn, ∀ out ∈ (f conn).queue,
      out ∈ conn.queue ∨ ∃ frame, new id frame ∧ out.bytes = frame.toVec) :
    Enqueues h (h.modify id f) new := by
  unfold modify
  cases hconn : h.conns.lookup id with
  | none => exact .refl h
  | some conn =>
    refine ⟨⟨rfl, rfl, ?_⟩, ?_⟩
    · intro c
      show ((h.conns.insert id (f conn)).lookup c).map Conn.peer = (h.conns.lookup c).map Conn.peer
      by_cases hc : c = id
      · subst hc
        rw [lookup_insert, hconn, map_some, map_some, hpeer]
      · rw [lookup_insert_ne hc]
    · intro c out hout
      replace hout : out ∈ (((h.conns.insert id (f conn)).lookup c).map Conn.queue).getD [] := hout
      by_cases hc : c = id
      · subst hc
        rw [lookup_insert] at hout
        rw [queueOf, hconn]
        exact hqueue conn out hout
      · rw [lookup_insert_ne hc] at hout
        exact .inl hout

end

def Only (dst : ConnId) (frame : Frame) (c : ConnId) (f : Frame) : Prop := c = dst ∧ f = frame

def Control (_ : ConnId) (f : Frame) : Prop := f.isControl = true

variable {frame : Frame} {dst : ConnId} {order : Arrangement ConnId}

theorem mem_makeRoom {depth : ℕ} {queue : List (Outbound M)} (h : out ∈ makeRoom depth queue) :
    out ∈ queue := mem_of_mem_drop h

theorem enqueues_enqueueAttributed (h : Hub M G) (dst : ConnId) (frame : Frame)
    (mapping : Option M) : Enqueues h (h.enqueueAttributed dst frame mapping).1 (Only dst frame) := by
  unfold enqueueAttributed
  cases h.conns.lookup dst with
  | none => exact .refl h
  | some conn =>
    refine enqueues_modify (fun _ => rfl) ?_
    intro conn out hout
    rcases mem_append.mp hout with hold | hnew
    · exact .inl (mem_makeRoom hold)
    · rw [mem_singleton.mp hnew]
      exact .inr ⟨frame, ⟨rfl, rfl⟩, rfl⟩

theorem enqueues_enqueue (hframe : frame.isControl = true) : Enqueues h (h.enqueue dst frame) Control :=
  (h.enqueues_enqueueAttributed dst frame none).mono fun _ _ h => h.2 ▸ hframe

theorem enqueues_enqueuePriority (hframe : frame.isControl = true) :
    Enqueues h (h.enqueuePriority dst frame) Control := by
  refine enqueues_modify (fun _ => rfl) ?_
  intro conn out hout
  rcases mem_cons.mp hout with rfl | hold
  · exact .inr ⟨frame, hframe, rfl⟩
  · exact .inl (mem_makeRoom hold)

theorem enqueues_gossip (h : Hub M G) (order : Arrangement ConnId)
    (hframe : frame.isControl = true) : Enqueues h (h.gossip order frame) Control :=
  enqueues_foldl (fun _ _ => enqueues_enqueue hframe) h _

theorem enqueues_beginClose {reason : Option Reason} : Enqueues h (h.beginClose id reason) Control := by
  refine enqueues_modify (fun _ => rfl) ?_
  intro conn out hout
  rcases mem_append.mp hout with hold | hnew
  · exact .inl hold
  · obtain ⟨r, -, rfl⟩ := mem_map.mp hnew
    exact .inr ⟨.close r, rfl, rfl⟩

theorem enqueues_beginRestart {a b : UInt32} : Enqueues h (h.beginRestart order a b) Control := by
  refine enqueues_foldl ?_ h _
  intro h id
  exact (enqueues_enqueuePriority rfl).trans enqueues_beginClose

theorem enqueues_takeOutbound (h : Hub M G) (id : ConnId) : Enqueues h (h.takeOutbound id).1 Control :=
  enqueues_modify (fun _ => rfl) fun _ _ hout => .inl (mem_of_mem_tail hout)

/-! ### Forwarding -/

section

variable (reserve : Reserve M G) {source : ConnId} {srcId dstId : Id} {payload : Bytes}
  {roster : Roster} {nowMs : ℕ} {mapping : Option M}

variable {new : ConnId → Frame → Prop}

theorem enqueues_chargeAquifer {aquifer : AquiferId} {bytes : ℕ} :
    Enqueues h (h.chargeAquifer aquifer bytes nowMs).1 new := by
  unfold chargeAquifer
  split
  · exact .refl h
  · exact ⟨⟨rfl, rfl, fun _ => rfl⟩, fun _ _ hout => .inl hout⟩

theorem viaMesh_chargeAquifer {aquifer : AquiferId} {bytes : ℕ} :
    (h.chargeAquifer aquifer bytes nowMs).1.viaMesh dstId = h.viaMesh dstId := by
  unfold chargeAquifer
  split <;> rfl

theorem viaMesh_modify {f : Conn M → Conn M} : (h.modify id f).viaMesh dstId = h.viaMesh dstId := by
  unfold modify
  split <;> rfl

theorem enqueues_passGate : Enqueues h (h.passGate reserve dst frame mapping).1 new := by
  unfold passGate
  split
  · split
    · exact ⟨⟨rfl, rfl, fun _ => rfl⟩, fun _ _ hout => .inl hout⟩
    · exact .refl h
  · exact .refl h

theorem enqueues_deliverAttributed :
    Enqueues h (h.deliverAttributed reserve dst frame mapping).1 (Only dst frame) := by
  unfold deliverAttributed
  have hgate : Enqueues h (h.passGate reserve dst frame mapping).1 (Only dst frame) :=
    enqueues_passGate reserve
  dsimp only
  split
  · exact hgate.trans (enqueues_enqueueAttributed _ dst frame mapping)
  · exact hgate

def FromClient (h : Hub M G) (source : ConnId) (dstId : Id) (payload : Bytes) (roster : Roster)
    (c : ConnId) (f : Frame) : Prop :=
  f.isControl = true ∨ ∃ srcId aquifer, h.peerOf source = some (.client srcId aquifer)
    ∧ ((∃ e, roster.client dstId = some e ∧ e.aquifer = aquifer ∧ h.byNode.lookup dstId = some c
        ∧ f = .recvPacket srcId payload) ∨ h.viaMesh dstId = some c ∧ f = .forward srcId dstId payload)

theorem enqueues_forwardFromClient :
    Enqueues h (h.forwardFromClient reserve source dstId payload roster nowMs mapping).1
      (h.FromClient source dstId payload roster) := by
  have hcontrol (frame : Frame) (hframe : frame.isControl = true) :
      Enqueues h (h.reply source frame) (h.FromClient source dstId payload roster) :=
    (enqueues_enqueue hframe).mono fun _ _ hf => .inl hf
  unfold forwardFromClient
  split
  · rename_i srcId aquifer hpeer
    split
    · exact .refl h
    split
    · exact hcontrol _ rfl
    · rename_i hadmitted
      obtain ⟨e, he, haquifer⟩ : ∃ e, roster.client dstId = some e ∧ e.aquifer = aquifer := by
        simpa [Option.any_eq_true] using hadmitted
      have hcharge : Enqueues h (h.chargeAquifer aquifer payload.length nowMs).1
          (h.FromClient source dstId payload roster) := enqueues_chargeAquifer
      dsimp only
      split
      · exact hcharge
      · split
        · rename_i dst hdst
          rw [hcharge.same.byNode] at hdst
          refine hcharge.trans ((enqueues_deliverAttributed reserve).mono ?_)
          rintro c f ⟨rfl, rfl⟩
          exact .inr ⟨srcId, aquifer, hpeer, .inl ⟨e, he, haquifer, hdst, rfl⟩⟩
        · split
          · rename_i dst hdst
            rw [viaMesh_chargeAquifer] at hdst
            refine hcharge.trans ((enqueues_deliverAttributed reserve).mono ?_)
            rintro c f ⟨rfl, rfl⟩
            exact .inr ⟨srcId, aquifer, hpeer, .inr ⟨hdst, rfl⟩⟩
          · exact hcharge.trans ((enqueues_enqueue rfl).mono fun _ _ hf => .inl hf)
  · exact .refl h

def FromMesh (h : Hub M G) (srcId dstId : Id) (payload : Bytes) (roster : Roster) (c : ConnId)
    (f : Frame) : Prop :=
  f.isControl = true ∨ ∃ aquifer, sharedAquifer roster srcId dstId = some aquifer
    ∧ h.byNode.lookup dstId = some c ∧ f = .recvPacket srcId payload

theorem enqueues_deliverFromMesh :
    Enqueues h (h.deliverFromMesh reserve source srcId dstId payload roster nowMs mapping).1
      (h.FromMesh srcId dstId payload roster) := by
  unfold deliverFromMesh
  split
  · exact (enqueues_enqueue rfl).mono fun _ _ hf => .inl hf
  · rename_i dst hdst
    split
    · exact .refl h
    · rename_i aquifer haquifer
      have hcharge : Enqueues h (h.chargeAquifer aquifer payload.length nowMs).1
          (h.FromMesh srcId dstId payload roster) := enqueues_chargeAquifer
      dsimp only
      split
      · exact hcharge
      · refine hcharge.trans ((enqueues_deliverAttributed reserve).mono ?_)
        rintro c f ⟨rfl, rfl⟩
        exact .inr ⟨aquifer, haquifer, hdst, rfl⟩

/-! ### Steps -/

inductive Queues (h : Hub M G) : Op M G → ConnId → Frame → Prop where
  | control {op : Op M G} {c : ConnId} {f : Frame} (hf : f.isControl = true) : Queues h op c f
  /-- A client's packet for a client that is connected here. -/
  | direct {id c : ConnId} {srcId dstId : Id} {aquifer : AquiferId} {payload : Bytes}
      {roster : Roster} {nowMs : ℕ} {mapping : Option M} {e : RosterEntry}
      (hpeer : h.peerOf id = some (.client srcId aquifer))
      (hroster : roster.client dstId = some e) (haquifer : e.aquifer = aquifer)
      (hdst : h.byNode.lookup dstId = some c) :
      Queues h (.onFrame id (.sendPacket dstId payload) roster nowMs mapping) c (.recvPacket srcId payload)
  /-- A client's packet for a client of a meshed relay. -/
  | viaMesh {id c : ConnId} {srcId dstId : Id} {aquifer : AquiferId} {payload : Bytes}
      {roster : Roster} {nowMs : ℕ} {mapping : Option M}
      (hpeer : h.peerOf id = some (.client srcId aquifer)) (hdst : h.viaMesh dstId = some c) :
      Queues h (.onFrame id (.sendPacket dstId payload) roster nowMs mapping) c (.forward srcId dstId payload)
  /-- A meshed relay's packet for a client that is connected here. -/
  | fromMesh {id c : ConnId} {relayId srcId dstId : Id} {aquifer : AquiferId} {payload : Bytes}
      {roster : Roster} {nowMs : ℕ} {mapping : Option M} (hpeer : h.peerOf id = some (.mesh relayId))
      (hroster : sharedAquifer roster srcId dstId = some aquifer) (hdst : h.byNode.lookup dstId = some c) :
      Queues h (.onFrame id (.forward srcId dstId payload) roster nowMs mapping) c (.recvPacket srcId payload)

theorem enqueues_onFrame (h : Hub M G) (id : ConnId) (frame : Frame) (roster : Roster) (nowMs : ℕ)
    (mapping : Option M) : Enqueues h (h.onFrame reserve id frame roster nowMs mapping).1
      (h.Queues (.onFrame id frame roster nowMs mapping)) := by
  unfold onFrame
  split
  · exact .refl h
  · rename_i conn hconn
    have hpeer : h.peerOf id = some conn.peer := by rw [peerOf, hconn, map_some]
    split
    · exact .refl h
    · rename_i meter _
      have hmeter : Enqueues h (h.modify id fun conn => { conn with meter := meter })
          (h.Queues (.onFrame id frame roster nowMs mapping)) :=
        enqueues_modify (fun _ => rfl) fun _ _ hout => .inl hout
      refine hmeter.trans ?_
      set h₁ := h.modify id fun conn => { conn with meter := meter }
      unfold handle
      split
      · exact (enqueues_enqueuePriority rfl).mono fun _ _ hf => .control hf
      · exact .refl h₁
      · exact enqueues_beginClose.mono fun _ _ hf => .control hf
      · refine (enqueues_forwardFromClient reserve).mono ?_
        rintro c f (hf | ⟨srcId, aquifer, hsrc, ⟨e, he, haquifer, hdst, rfl⟩ | ⟨hdst, rfl⟩⟩)
        · exact .control hf
        · rw [hmeter.same.peerOf] at hsrc
          rw [hmeter.same.byNode] at hdst
          exact .direct hsrc he haquifer hdst
        · rw [hmeter.same.peerOf] at hsrc
          rw [viaMesh_modify] at hdst
          exact .viaMesh hsrc hdst
      · rename_i hmesh _
        refine (enqueues_deliverFromMesh reserve).mono ?_
        rintro c f (hf | ⟨aquifer, haquifer, hdst, rfl⟩)
        · exact .control hf
        · rw [hmeter.same.byNode] at hdst
          exact .fromMesh (hpeer.trans (congrArg some hmesh)) haquifer hdst
      · exact ⟨⟨rfl, rfl, fun _ => rfl⟩, fun _ _ hout => .inl hout⟩
      · split
        · exact ⟨⟨rfl, rfl, fun _ => rfl⟩, fun _ _ hout => .inl hout⟩
        · exact .refl h₁
      · exact .refl h₁

theorem gains_insert {conn : Conn M} (hconns : h'.conns = h.conns.insert id conn)
    (hqueue : conn.queue = []) : Gains h h' new := by
  intro c out hout
  rw [queueOf, hconns] at hout
  by_cases hc : c = id
  · subst hc
    rw [lookup_insert] at hout
    rw [map_some, getD_some, hqueue] at hout
    cases hout
  · rw [lookup_insert_ne hc] at hout
    exact .inl hout

theorem gains_admitConn {meshOrder : Arrangement ConnId} {nodeOrder : Arrangement Id} {peer : Admitted} :
    Gains h (h.admitConn meshOrder nodeOrder id peer nowMs).1 Control := by
  unfold admitConn
  split
  · dsimp only
    split
    · refine Gains.trans ?_ (enqueues_gossip _ meshOrder rfl).gains
      exact gains_insert rfl rfl
    · exact gains_insert rfl rfl
  · refine Gains.trans ?_ (enqueues_foldl (fun _ _ => enqueues_enqueue rfl) _ _).gains
    exact gains_insert rfl rfl

theorem gains_disconnect : Gains h (h.disconnect order id).1 Control := by
  have herase (h' : Hub M G) (hconns : h'.conns = h.conns.erase id) : Gains h h' Control := by
    intro c out hout
    rw [queueOf, hconns] at hout
    by_cases hc : c = id
    · subst hc
      rw [lookup_erase] at hout
      cases hout
    · rw [lookup_erase_ne hc] at hout
      exact .inl hout
  fun_cases disconnect h order id with
  | case1 => exact .refl h
  | case2 => exact (herase _ rfl).trans (enqueues_gossip _ order rfl).gains
  | _ => exact herase _ rfl

theorem gains_step (h : Hub M G) (op : Op M G) : Gains h (h.step reserve op) (h.Queues op) := by
  have hcontrol {h' : Hub M G} (hg : Gains h h' Control) : Gains h h' (h.Queues op) :=
    hg.mono fun _ _ hf => .control hf
  cases op with
  | setCreditGate gate => exact fun _ _ hout => .inl hout
  | admitConn meshOrder nodeOrder id peer nowMs => exact hcontrol gains_admitConn
  | onFrame id frame roster nowMs mapping =>
    exact (h.enqueues_onFrame reserve id frame roster nowMs mapping).gains
  | beginClose id reason => exact hcontrol enqueues_beginClose.gains
  | beginRestart order a b => exact hcontrol enqueues_beginRestart.gains
  | disconnect order id => exact hcontrol gains_disconnect
  | takeOutbound id => exact hcontrol (h.enqueues_takeOutbound id).gains

end

/-! ### The registry -/

/-- The tables name connections that are registered, for the peer they are named under. -/
structure Linked (h : Hub M G) : Prop where
  node : ∀ n c, h.byNode.lookup n = some c → ∃ aquifer, h.peerOf c = some (.client n aquifer)
  mesh : ∀ r c, h.byMesh.lookup r = some c → h.peerOf c = some (.mesh r)

theorem Linked.of_same (hl : h.Linked) (hs : SameRegistry h h') : h'.Linked where
  node := by
    intro n c hn
    rw [hs.peerOf]
    exact hl.node n c (hs.byNode ▸ hn)
  mesh := by
    intro r c hr
    rw [hs.peerOf]
    exact hl.mesh r c (hs.byMesh ▸ hr)

theorem peerOf_insert {conn : Conn M} (hconns : h'.conns = h.conns.insert id conn) (c : ConnId) :
    h'.peerOf c = if c = id then some conn.peer else h.peerOf c := by
  rw [peerOf, hconns]
  split
  · rename_i hc
    rw [hc, lookup_insert, map_some]
  · rename_i hc
    rw [lookup_insert_ne hc]
    rfl

theorem peerOf_erase (hconns : h'.conns = h.conns.erase id) (c : ConnId) :
    h'.peerOf c = if c = id then none else h.peerOf c := by
  rw [peerOf, hconns]
  split
  · rename_i hc
    rw [hc, lookup_erase, map_none]
  · rename_i hc
    rw [lookup_erase_ne hc]
    rfl

theorem linked_insert (hl : h.Linked) (hfresh : h.conns.lookup id = none) {conn : Conn M}
    (hconns : h'.conns = h.conns.insert id conn) (hnode : ∀ n c, h'.byNode.lookup n = some c →
      ((∃ aquifer, conn.peer = .client n aquifer) ∧ c = id) ∨ h.byNode.lookup n = some c)
    (hmesh : ∀ r c, h'.byMesh.lookup r = some c →
      (conn.peer = .mesh r ∧ c = id) ∨ h.byMesh.lookup r = some c) : h'.Linked := by
  have hne (c : ConnId) (peer : Admitted) (hpeer : h.peerOf c = some peer) : c ≠ id := by
    intro hc
    rw [hc, peerOf, hfresh] at hpeer
    cases hpeer
  constructor
  · intro n c hn
    rw [peerOf_insert hconns]
    rcases hnode n c hn with ⟨⟨aquifer, hpeer⟩, hc⟩ | hold
    · rw [if_pos hc, hpeer]
      exact ⟨aquifer, rfl⟩
    · obtain ⟨aquifer, hpeer⟩ := hl.node n c hold
      rw [if_neg (hne c _ hpeer)]
      exact ⟨aquifer, hpeer⟩
  · intro r c hr
    rw [peerOf_insert hconns]
    rcases hmesh r c hr with ⟨hpeer, hc⟩ | hold
    · rw [if_pos hc, hpeer]
    · have hpeer := hl.mesh r c hold
      rw [if_neg (hne c _ hpeer)]
      exact hpeer

theorem linked_admitConn (hl : h.Linked) (hfresh : h.conns.lookup id = none)
    (meshOrder : Arrangement ConnId) (nodeOrder : Arrangement Id) (peer : Admitted) (nowMs : ℕ) :
    (h.admitConn meshOrder nodeOrder id peer nowMs).1.Linked := by
  unfold admitConn
  split
  · rename_i nodeId aquifer
    have hnew : Linked { h with
        byNode := h.byNode.insert nodeId id
        conns := h.conns.insert id ⟨.client nodeId aquifer, [], .new h.cfg.clientBudget nowMs, none⟩ } := by
      refine linked_insert hl hfresh rfl ?_ (fun _ _ hr => .inr hr)
      intro n c hn
      rcases lookup_insert_eq_some hn with ⟨rfl, rfl⟩ | hold
      · exact .inl ⟨⟨aquifer, rfl⟩, rfl⟩
      · exact .inr hold
    dsimp only
    split
    · exact hnew.of_same (enqueues_gossip _ meshOrder rfl).same
    · exact hnew
  · rename_i relayId
    have hnew : Linked { h with
        byMesh := h.byMesh.insert relayId id
        conns := h.conns.insert id ⟨.mesh relayId, [], .new h.cfg.meshBudget nowMs, none⟩ } := by
      refine linked_insert hl hfresh rfl (fun _ _ hn => .inr hn) ?_
      intro r c hr
      rcases lookup_insert_eq_some hr with ⟨rfl, rfl⟩ | hold
      · exact .inl ⟨rfl, rfl⟩
      · exact .inr hold
    exact hnew.of_same (enqueues_foldl (fun _ _ => enqueues_enqueue rfl) _ _).same

theorem linked_disconnect (hl : h.Linked) (order : Arrangement ConnId) (id : ConnId) :
    (h.disconnect order id).1.Linked := by
  unfold disconnect
  split
  · exact hl
  · rename_i conn hconn
    have hid : h.peerOf id = some conn.peer := by rw [peerOf, hconn, map_some]
    have hclient (n : Id) (hn : h.byNode.lookup n = some id) : ∃ aquifer, conn.peer = .client n aquifer :=
      (hl.node n id hn).imp fun _ hpeer => some.inj (hid.symm.trans hpeer)
    have hrelay (r : Id) (hr : h.byMesh.lookup r = some id) : conn.peer = .mesh r :=
      some.inj (hid.symm.trans (hl.mesh r id hr))
    have herase (h' : Hub M G) (hconns : h'.conns = h.conns.erase id)
        (hnode : ∀ n c, h'.byNode.lookup n = some c → h.byNode.lookup n = some c ∧ c ≠ id)
        (hmesh : ∀ r c, h'.byMesh.lookup r = some c → h.byMesh.lookup r = some c ∧ c ≠ id) : h'.Linked := by
      constructor
      · intro n c hn
        obtain ⟨hold, hne⟩ := hnode n c hn
        rw [peerOf_erase hconns, if_neg hne]
        exact hl.node n c hold
      · intro r c hr
        obtain ⟨hold, hne⟩ := hmesh r c hr
        rw [peerOf_erase hconns, if_neg hne]
        exact hl.mesh r c hold
    dsimp only
    split
    · rename_i nodeId aquifer hpeer
      have hmesh (r : Id) (c : ConnId) (hr : h.byMesh.lookup r = some c) :
          h.byMesh.lookup r = some c ∧ c ≠ id := by
        refine ⟨hr, ?_⟩
        rintro rfl
        cases hpeer.symm.trans (hrelay r hr)
      split
      · refine Linked.of_same ?_ (enqueues_gossip _ order rfl).same
        refine herase _ rfl ?_ hmesh
        intro n c hn
        obtain ⟨hne, hold⟩ := lookup_erase_eq_some hn
        refine ⟨hold, ?_⟩
        rintro rfl
        obtain ⟨aquifer', hn⟩ := hclient n hold
        exact hne (Admitted.client.inj (hn.symm.trans hpeer)).1
      · rename_i hother
        refine herase _ rfl ?_ hmesh
        intro n c hn
        refine ⟨hn, ?_⟩
        rintro rfl
        obtain ⟨aquifer', hpeer'⟩ := hclient n hn
        rw [(Admitted.client.inj (hpeer'.symm.trans hpeer)).1] at hn
        exact hother hn
    · rename_i relayId hpeer
      have hnode (n : Id) (c : ConnId) (hn : h.byNode.lookup n = some c) :
          h.byNode.lookup n = some c ∧ c ≠ id := by
        refine ⟨hn, ?_⟩
        rintro rfl
        obtain ⟨aquifer, hn⟩ := hclient n hn
        cases hpeer.symm.trans hn
      split
      · refine herase _ rfl hnode ?_
        intro r c hr
        obtain ⟨hne, hold⟩ := lookup_erase_eq_some hr
        refine ⟨hold, ?_⟩
        rintro rfl
        exact hne (Admitted.mesh.inj ((hrelay r hold).symm.trans hpeer))
      · rename_i hother
        refine herase _ rfl hnode ?_
        intro r c hr
        refine ⟨hr, ?_⟩
        rintro rfl
        rw [Admitted.mesh.inj ((hrelay r hr).symm.trans hpeer)] at hr
        exact hother hr

/-! ### Runs -/

/-- The roster lists a connected client under the aquifer it was admitted with. -/
def lists (roster : Roster) : Admitted → Bool
  | .client nodeId aquifer => (roster.client nodeId).any fun e => e.aquifer == aquifer
  | .mesh _ => true

/-- Connection ids are fresh, and a roster lists the clients that are connected. -/
def allowed (h : Hub M G) : Op M G → Bool
  | .admitConn _ _ id _ _ => (h.conns.lookup id).isNone
  | .onFrame _ _ roster _ _ => h.conns.entries.all fun e => lists roster e.2.peer
  | _ => true

theorem listed_of_allowed {roster : Roster} {nowMs : ℕ} {mapping : Option M}
    (hallowed : h.allowed (.onFrame id frame roster nowMs mapping) = true) {nodeId : Id}
    {aquifer : AquiferId} (hpeer : h.peerOf c = some (.client nodeId aquifer)) :
    ∃ e, roster.client nodeId = some e ∧ e.aquifer = aquifer := by
  obtain ⟨conn, hconn, hclient⟩ := map_eq_some_iff.mp hpeer
  have hlists := all_eq_true.mp hallowed ⟨c, conn⟩ (mem_lookup_iff.mp hconn)
  rw [hclient] at hlists
  simpa [lists, Option.any_eq_true] using hlists

/-- **The tables stay linked**, step by step. -/
theorem linked_step (reserve : Reserve M G) (h : Hub M G) (op : Op M G)
    (hallowed : h.allowed op = true) (hl : h.Linked) : (h.step reserve op).Linked := by
  cases op with
  | setCreditGate gate => exact hl.of_same ⟨rfl, rfl, fun _ => rfl⟩
  | admitConn meshOrder nodeOrder id peer nowMs =>
    exact linked_admitConn hl (isNone_iff_eq_none.mp hallowed) meshOrder nodeOrder peer nowMs
  | onFrame id frame roster nowMs mapping =>
    exact hl.of_same (h.enqueues_onFrame reserve id frame roster nowMs mapping).same
  | beginClose id reason => exact hl.of_same enqueues_beginClose.same
  | beginRestart order a b => exact hl.of_same enqueues_beginRestart.same
  | disconnect order id => exact linked_disconnect hl order id
  | takeOutbound id => exact hl.of_same (h.enqueues_takeOutbound id).same

theorem linked_new (cfg : Config) : (new cfg : Hub M G).Linked where
  node := fun _ _ hn => by cases hn
  mesh := fun _ _ hr => by cases hr

/-- A packet that reached the client registered for its destination, from a client that sent it or
from a relay that named its source, both in one aquifer of the roster. -/
def Delivered (h : Hub M G) (op : Op M G) (c : ConnId) (srcId : Id) (payload : Bytes) : Prop :=
  ∃ id frame roster nowMs mapping dstId, op = .onFrame id frame roster nowMs mapping
    ∧ ((∃ aquifer, h.peerOf id = some (.client srcId aquifer) ∧ frame = .sendPacket dstId payload)
      ∨ ∃ relayId, h.peerOf id = some (.mesh relayId) ∧ frame = .forward srcId dstId payload)
    ∧ h.byNode.lookup dstId = some c ∧ (∃ aquifer, h.peerOf c = some (.client dstId aquifer))
    ∧ ∃ s d, roster.client srcId = some s ∧ roster.client dstId = some d ∧ s.aquifer = d.aquifer

/-- A packet of a client that was handed to a meshed relay. -/
def Forwarded (h : Hub M G) (op : Op M G) (c : ConnId) (srcId dstId : Id) (payload : Bytes) : Prop :=
  ∃ id roster nowMs mapping aquifer relayId, op = .onFrame id (.sendPacket dstId payload) roster nowMs mapping
      ∧ h.peerOf id = some (.client srcId aquifer) ∧ h.peerOf c = some (.mesh relayId)

theorem delivered_of_queues (hl : h.Linked) {op : Op M G} (hallowed : h.allowed op = true)
    {srcId : Id} {payload : Bytes} (hq : h.Queues op c (.recvPacket srcId payload)) :
    h.Delivered op c srcId payload := by
  cases hq with
  | control hf => cases hf
  | direct hpeer hroster haquifer hdst =>
    obtain ⟨s, hs, hsaquifer⟩ := listed_of_allowed hallowed hpeer
    exact ⟨_, _, _, _, _, _, rfl, .inl ⟨_, hpeer, rfl⟩, hdst, hl.node _ _ hdst, s, _, hs, hroster,
      hsaquifer.trans haquifer.symm⟩
  | fromMesh hpeer hroster hdst =>
    obtain ⟨s, hs, hrest⟩ := bind_eq_some_iff.mp hroster
    obtain ⟨d, hd, hshared⟩ := bind_eq_some_iff.mp hrest
    have hsame : s.aquifer = d.aquifer := by
      by_contra hne
      rw [if_neg hne] at hshared
      cases hshared
    exact ⟨_, _, _, _, _, _, rfl, .inr ⟨_, hpeer, rfl⟩, hdst, hl.node _ _ hdst, s, d, hs, hd, hsame⟩

theorem forwarded_of_queues (hl : h.Linked) {op : Op M G} {srcId dstId : Id} {payload : Bytes}
    (hq : h.Queues op c (.forward srcId dstId payload)) : h.Forwarded op c srcId dstId payload := by
  cases hq with
  | control hf => cases hf
  | viaMesh hpeer hdst =>
    obtain ⟨relayId, -, hmesh⟩ := bind_eq_some_iff.mp hdst
    exact ⟨_, _, _, _, _, relayId, rfl, hpeer, hl.mesh _ _ hmesh⟩

theorem exists_queues (reserve : Reserve M G) (cfg : Config) {ops : List (Op M G)}
    (hout : out ∈ (run reserve cfg ops).queueOf c) : ∃ before op after, ops = before ++ op :: after
      ∧ ∃ f, (run reserve cfg before).Queues op c f ∧ out.bytes = f.toVec := by
  have hinit : ¬ out ∈ (new cfg : Hub M G).queueOf c := by
    intro hmem
    cases hmem
  exact Runs.exists_gain (fun h : Hub M G => out ∈ h.queueOf c)
    (fun h op hmem => h.gains_step reserve op c out hmem) hinit hout

/-- **Tenant isolation.**  A packet waits for the client of its destination, of its source's
aquifer; a forwarded one for a meshed relay. -/
theorem tenant_isolation (reserve : G → M → ℕ → G × Bool) (cfg : Config) (ops : List (Op M G))
    (hallowed : Runs.Along (step reserve) allowed (new cfg) ops = true) :
    ∀ c out, out ∈ (run reserve cfg ops).queueOf c →
      (∀ srcId payload, out.bytes = (Frame.recvPacket srcId payload).toVec →
        ∃ before op after, ops = before ++ op :: after
          ∧ (run reserve cfg before).Delivered op c srcId payload)
      ∧ ∀ srcId dstId payload, out.bytes = (Frame.forward srcId dstId payload).toVec →
        ∃ before op after, ops = before ++ op :: after
          ∧ (run reserve cfg before).Forwarded op c srcId dstId payload := by
  intro c out hout
  obtain ⟨before, op, after, rfl, f, hq, hbytes⟩ := exists_queues reserve cfg hout
  rw [Runs.along_append, Bool.and_eq_true] at hallowed
  obtain ⟨hbefore, hafter⟩ := hallowed
  have hop : (run reserve cfg before).allowed op = true := (Bool.and_eq_true_iff.mp hafter).1
  have hl : (run reserve cfg before).Linked :=
    Runs.along_induction (linked_step reserve) (linked_new cfg) hbefore
  constructor
  · intro srcId payload hrecv
    rw [Frame.eq_recvPacket (hrecv.symm.trans hbytes)] at hq
    exact ⟨before, op, after, rfl, delivered_of_queues hl hop hq⟩
  · intro srcId dstId payload hforward
    rw [Frame.eq_forward (hforward.symm.trans hbytes)] at hq
    exact ⟨before, op, after, rfl, forwarded_of_queues hl hq⟩

/-- Two clients of one aquifer: the first sends a packet to the second. -/
def twoClients : List (Op Unit Unit) :=
  [.admitConn .asStored .asStored 0 (.client (fit ID_LEN [1]) [7]) 0,
    .admitConn .asStored .asStored 1 (.client (fit ID_LEN [2]) [7]) 0,
    .onFrame 0 (.sendPacket (fit ID_LEN [2]) [9]) ⟨fun _ => some ⟨[], [7]⟩, fun _ => none, []⟩ 0 none]

theorem thirtyTwo_pos : 0 < 32 := by decide

def standard : Config := ⟨.standard, .unlimited, none, 32, thirtyTwo_pos⟩

theorem twoClients_isolated : ∃ before op after, twoClients = before ++ op :: after
      ∧ (run (fun g _ _ => (g, true)) standard before).Delivered op 1 (fit ID_LEN [1]) [9] :=
  ((tenant_isolation (fun g _ _ => (g, true)) standard twoClients (by decide +kernel) 1
    ⟨(Frame.recvPacket (fit ID_LEN [1]) [9]).toVec, some ⟨none, 1⟩⟩ (by decide +kernel)).1) _ _ rfl

end Hub

end Karst.Relay
