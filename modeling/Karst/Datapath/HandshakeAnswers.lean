import Karst.Crypto.Reference
import Karst.Datapath.Calls

/-!
# Repeated handshakes

A peer that hears no answer sends its `HandshakeInit` again, and the session that answered it has the
response on record.  The engine finds that session by the address the message came from.
-/

namespace Karst.Datapath.HandshakeAnswers

open Crypto Engine Noise Proto Node Calls Option Prog Runs
open List hiding Vector

variable {P : Primitives} {F : FileTransfers} {nowMs : ℕ} {amb : Ambient} {rand : ResponderRandomness}

/-! ### Who is at an address -/

theorem of_senderAt {e : Engine P F} {addr : SocketAddr} {i : PeerIndex} (h : senderAt e addr = some i) :
    endpointOf e i = some addr ∧ ∃ slot, e.roster.peers[i]? = some slot := by
  have haddr : endpointOf e i = some addr := by simpa using find?_some h
  obtain ⟨slot, hslot, -⟩ := bind_eq_some_iff.mp haddr
  exact ⟨haddr, slot, hslot⟩

theorem via_of_endpoint {e : Engine P F} {i : PeerIndex} {addr : SocketAddr}
    (h : endpointOf e i = some addr) (roster : Roster P) :
    (via roster i).run e = (e, some (.direct addr)) := by
  rw [via, run_bind, run_endpoint, h]
  rfl

/-! ### Every run keeps its records -/

theorem call_preserves {r : Roster P} (call : Call P) : Preserves Sound (call.body r : EngineM P F _) :=
  (call_proper (S := fun _ _ => True) (c := True) call).preserves

def step (e : Engine P F) (call : Call P) : Engine P F := ((call.body e.roster).run e).1

variable {e : Engine P F} {i : PeerIndex}

theorem step_setEndpoint {slot : Ref} (h : e.roster.peers[i]? = some slot) (addr : SocketAddr) :
    step e (.setEndpoint i addr) = e.writeSlot slot { e.slots.cell slot with endpoint := some addr } := by
  show ((setEndpoint i addr >>= fun _ => pure Output.empty).run e).1 = _
  rw [run_bind, setEndpoint, run_bind, run_readRoster, h]
  simp

theorem run_sound (config : Config P) (calls : List (Call P)) :
    Sound (run step (Engine.new config : Engine P F) calls) := by
  refine run_induction (fun e call => call_preserves call e) (fun slot => ?_) calls
  rcases Engine.new_cell config slot with hcell | ⟨i, peer, hcell⟩
  all_goals
    rw [hcell]
    exact Session.new_sound _ _ _ _

/-! ### One repeated init -/

def Quiet (actions : List Action) : Prop := ∀ packet, Action.deliver packet ∉ actions

theorem emit_quiet (s : Session P) (ty : MessageType) (msg : Bytes) (seed : Seed) :
    Quiet (s.emit ty msg seed).2 := by
  intro packet h
  unfold Session.emit at h
  dsimp only at h
  split at h <;> simp at h

theorem adoptResponder_quiet (s : Session P) (init : Bytes) (keys : TransportKeys) (msg2 : Bytes)
    (now : ℕ) (seed : Seed) : Quiet (s.adoptResponder init keys msg2 now seed).2 := by
  have hemit := emit_quiet { s with answered := some (init, msg2) } .handshakeResponse msg2 seed
  intro packet h
  unfold Session.adoptResponder at h
  dsimp only at h
  split at h
  all_goals simp [hemit packet] at h

theorem apply_quiet {roster : Roster P} {actions : List Action} (h : Quiet actions)
    (e : Engine P F) : ((apply roster i actions nowMs amb).run e).1 = e
      ∧ ∀ d ∈ ((apply roster i actions nowMs amb).run e).2.datagrams, d.peer = some i := by
  have hmeets : Meets (fun _ _ => True) (· = e) True
      (fun out : Output => ∀ d ∈ out.datagrams, d.peer = some i) (apply roster i actions nowMs amb) := by
    refine Preserves.andThen (fun e' he' => by rw [via_fst, he']) fun v => ?_
    refine meets_foldlM (fun _ d hd => absurd hd not_mem_nil) fun out action hmem => ?_
    cases action with
    | send d =>
      cases v with
      | none => exact meets_pure And.right
      | some v =>
        refine meets_pure fun hout d' hd' => ?_
        rw [Output.append_datagrams, mem_append, mem_singleton] at hd'
        exact hd'.elim (hout.2 d') fun h => by rw [h]
    | deliver packet => exact absurd hmem (h packet)
    | established => exact meets_pure And.right
    | closed reason => exact meets_pure And.right
  exact ⟨hmeets.preserves e rfl, (hmeets.ensures trivial).result e⟩

theorem run_apply_send {addr : SocketAddr} (h : endpointOf e i = some addr) (roster : Roster P)
    (frags : List Bytes) : (apply roster i (frags.map .send) nowMs amb).run e
      = (e, ⟨frags.map fun f => ⟨some i, f, .direct addr⟩, []⟩) := by
  have hfold : ∀ out : Output, ((frags.map Action.send).foldlM
      (applyAction roster i (some (.direct addr)) nowMs amb) out).run e
      = (e, ⟨out.datagrams ++ frags.map fun f => ⟨some i, f, .direct addr⟩, out.packets⟩) := by
    induction frags with
    | nil => simp
    | cons f frags ih =>
      intro out
      rw [map_cons, foldlM_cons, run_bind]
      refine (ih _).trans ?_
      simp [applyAction]
  rw [apply, run_bind, via_of_endpoint h]
  exact hfold .empty

/-- The recorded response goes back to the address it came from, framed anew, and the session's keys
stay as they are. -/
structure Reanswered (e : Engine P F) (result : Engine P F × Output) (q : Ref) (response : Bytes)
    (src : SocketAddr) (id : UInt32) : Prop where
  sent : ∃ i frags, e.roster.peers[i]? = some q
    ∧ fragment P .handshakeResponse id response (e.slots.cell q).session.outMacKey = some frags
    ∧ result.2.datagrams = frags.map fun f => ⟨some i, f, .direct src⟩
  keys : (result.1.slots.cell q).session.inbound = (e.slots.cell q).session.inbound
  cells : (result.1.slots.cell q).session.arena = (e.slots.cell q).session.arena

theorem not_reanswered {result : Engine P F × Output} {q : Ref} {response : Bytes}
    {src : SocketAddr} {id : UInt32} (hlen : response.length = RESPONSE_LEN) {k : PeerIndex}
    (hk : e.roster.peers[k]? ≠ some q) (hout : ∀ d ∈ result.2.datagrams, d.peer = some k) :
    ¬ Reanswered e result q response src id := by
  rintro ⟨⟨i, frags, hi, hfrags, hsent⟩, -, -⟩
  obtain ⟨frags', hfrags', hne⟩ := fragment_response (P := P) hlen id (e.slots.cell q).session.outMacKey
  obtain rfl : frags = frags' := some.inj (hfrags.symm.trans hfrags')
  obtain ⟨f, hf⟩ := exists_mem_of_ne_nil frags hne
  have htag := hout ⟨some i, f, .direct src⟩ (by
    rw [hsent]
    exact mem_map_of_mem hf)
  obtain rfl : i = k := some.inj htag
  exact hk hi

section

variable {e : Engine P F} {q : Ref} {msg response : Bytes} {src : SocketAddr} {id : UInt32}

variable {slot : Ref}

theorem run_answer {k : PeerIndex} (hk : e.roster.peers[k]? = some slot) (src : SocketAddr)
    (msg : Bytes) (keys : TransportKeys) (msg2 : Bytes) (nowMs : ℕ) (rand : ResponderRandomness)
    (amb : Ambient) : let result := (learnEndpoint e.roster k src >>= fun _ =>
      adopt e.roster k msg keys msg2 nowMs rand amb).run e
    result.1 = e.writeSlot slot { e.slots.cell slot with
        endpoint := some src
        session := ((e.slots.cell slot).session.adoptResponder msg keys msg2 nowMs
          (seedFromResponderRandomness P rand)).1 }
      ∧ ∀ d ∈ result.2.datagrams, d.peer = some k := by
  intro result
  let s := (e.slots.cell slot).session
  let adopted := s.adoptResponder msg keys msg2 nowMs (seedFromResponderRandomness P rand)
  let e' := e.writeSlot slot { e.slots.cell slot with endpoint := some src, session := adopted.1 }
  have hresult : result = (apply e.roster k adopted.2 nowMs amb).run e' := by
    simp [result, learnEndpoint, adopt, sessionActions, onSession, hk, e', adopted, s]
  rw [hresult]
  exact apply_quiet (adoptResponder_quiet s msg keys msg2 _ _) e'

theorem fresh_not_reanswered (he : Sound e) (hlen : response.length = RESPONSE_LEN)
    (answer : Option (PeerIndex × Bytes × TransportKeys)) : ¬ Reanswered e (run (match answer with
      | none => return .empty
      | some (peer, msg2, keys) => do
        learnEndpoint e.roster peer src
        adopt e.roster peer msg keys msg2 nowMs rand amb) e) q response src id := by
  have hnone : e.roster.peers[e.roster.peers.length]? ≠ some q := by simp
  cases answer with
  | none => exact not_reanswered hlen hnone fun d hd => absurd hd not_mem_nil
  | some answer =>
    obtain ⟨k, msg2, keys⟩ := answer
    cases hk : e.roster.peers[k]? with
    | none =>
      have hempty : ((learnEndpoint e.roster k src >>= fun _ =>
          adopt e.roster k msg keys msg2 nowMs rand amb).run e).2.datagrams = [] := by
        simp [learnEndpoint, adopt, sessionActions, apply, hk, Output.empty]
      exact not_reanswered hlen hnone fun d hd => absurd (hempty ▸ hd) not_mem_nil
    | some slot =>
      obtain ⟨hstate, htags⟩ := run_answer hk src msg keys msg2 nowMs rand amb
      by_cases hq : slot = q
      · subst hq
        intro h
        have hkeys := h.keys
        dsimp only at hkeys
        rw [hstate, writeSlot_self] at hkeys
        exact Session.adoptResponder_inbound (he slot).wellFormed _ _ _ _ _ hkeys
      · refine not_reanswered hlen (k := k) ?_ htags
        rw [hk]
        exact fun h => hq (some.inj h)

variable {j : PeerIndex}

theorem run_repeatedAt (hat : senderAt e src = some j) (hj : e.roster.peers[j]? = some slot)
    (seed : Seed) : (repeatedAt e.roster msg src seed).run e = (e.writeSlot slot { e.slots.cell slot with
            session := ((e.slots.cell slot).session.repeatResponse msg seed).1 },
          ((e.slots.cell slot).session.repeatResponse msg seed).2.map fun actions => (j, actions)) := by
  simp [repeatedAt, repeated, onSession, hat, hj]

theorem run_repeatedAt_none (hat : senderAt e src = none) (seed : Seed) :
    (repeatedAt e.roster msg src seed).run e = (e, none) := by
  simp [repeatedAt, hat]

theorem run_repeatedAt_of_ne (hat : senderAt e src = some j) (hj : e.roster.peers[j]? = some slot)
    (hne : ∀ response, (e.slots.cell slot).session.answered ≠ some (msg, response)) (seed : Seed) :
    (repeatedAt e.roster msg src seed).run e = (e, none) := by
  rw [run_repeatedAt hat hj, Session.repeatResponse_of_ne hne]
  show (e.writeSlot slot (e.slots.cell slot), none) = (e, none)
  rw [writeSlot, Arena.write_cell]

theorem unrecorded_not_reanswered (he : Sound e) (hlen : response.length = RESPONSE_LEN)
    (hrepeat : (repeatedAt e.roster msg src (seedFromResponderRandomness P rand)).run e = (e, none)) :
    ¬ Reanswered e ((acceptHandshake e.roster msg src nowMs rand amb).run e) q response src id := by
  rw [acceptHandshake, run_bind, hrepeat, run_bind, run_peerAt]
  exact fresh_not_reanswered he hlen _

theorem run_unrecorded
    (hrepeat : (repeatedAt e.roster msg src (seedFromResponderRandomness P rand)).run e = (e, none))
    {k : PeerIndex} {msg2 : Bytes} {keys : TransportKeys}
    (hrespond : respondFor e.roster msg rand ((senderAt e src).elim 0 localIndex) = some (k, msg2, keys))
    (hk : e.roster.peers[k]? = some slot) :
    ((acceptHandshake e.roster msg src nowMs rand amb).run e).1 = e.writeSlot slot { e.slots.cell slot with
        endpoint := some src
        session := ((e.slots.cell slot).session.adoptResponder msg keys msg2 nowMs
          (seedFromResponderRandomness P rand)).1 } := by
  rw [acceptHandshake, run_bind, hrepeat, run_bind, run_peerAt]
  dsimp only
  rw [hrespond]
  exact (run_answer hk src msg keys msg2 nowMs rand amb).1

theorem run_recorded (he : Sound e) (hat : senderAt e src = some j) (hj : e.roster.peers[j]? = some slot)
    (hanswered : (e.slots.cell slot).session.answered = some (msg, response)) :
    ∃ frags, fragment P .handshakeResponse (deriveReassemblyId P (seedFromResponderRandomness P rand))
        response (e.slots.cell slot).session.outMacKey = some frags
      ∧ (acceptHandshake e.roster msg src nowMs rand amb).run e
        = (e.writeSlot slot { e.slots.cell slot with session := { (e.slots.cell slot).session with
              reassemblyId := deriveReassemblyId P (seedFromResponderRandomness P rand) } },
            ⟨frags.map fun f => ⟨some j, f, .direct src⟩, []⟩) := by
  obtain ⟨frags, hfrags, -⟩ := fragment_response (P := P) ((he slot).answered msg response hanswered).2
    (deriveReassemblyId P (seedFromResponderRandomness P rand)) (e.slots.cell slot).session.outMacKey
  refine ⟨frags, hfrags, ?_⟩
  rw [acceptHandshake, run_bind, run_repeatedAt hat hj, Session.repeatResponse_of_answered hanswered hfrags]
  refine run_apply_send ?_ e.roster frags
  rw [← (of_senderAt hat).1]
  simp [endpointOf, hj]

theorem run_inbound {reasm reasm' : Reassembler} {datagram : Bytes}
    (hcomplete : ((receive reasm datagram src nowMs).run e).2 = (reasm', .complete msg))
    (hinit : msg.head? = some 0x01) : ((Call.inbound reasm datagram src nowMs rand amb).body e.roster).run e
      = (acceptHandshake e.roster msg src nowMs rand amb).run e := by
  show (inbound e.roster reasm datagram src nowMs rand amb >>= fun x => pure x.2).run e = _
  rw [run_bind, inbound, run_bind, receive_fst, hcomplete]
  simp [hinit]

/-- **A repeated init**, in a state where every record is a response: answered from the record exactly
if the source address is found to be the peer's. -/
theorem acceptHandshake_reanswered_iff (he : Sound e)
    (hanswered : (e.slots.cell q).session.answered = some (msg, response)) :
    Reanswered e ((acceptHandshake e.roster msg src nowMs rand amb).run e) q response src
        (deriveReassemblyId P (seedFromResponderRandomness P rand))
      ↔ ∃ j, senderAt e src = some j ∧ e.roster.peers[j]? = some q := by
  have hlen := ((he q).answered msg response hanswered).2
  cases hat : senderAt e src with
  | none =>
    refine iff_of_false (unrecorded_not_reanswered he hlen (run_repeatedAt_none hat _)) ?_
    rintro ⟨j, hj, -⟩
    cases hj
  | some j =>
    obtain ⟨-, slot, hj⟩ := of_senderAt hat
    by_cases hq : slot = q
    · subst hq
      obtain ⟨frags, hfrags, hrun⟩ := run_recorded he hat hj hanswered
      refine iff_of_true ?_ ⟨j, rfl, hj⟩
      rw [hrun]
      refine ⟨⟨j, frags, hj, hfrags, rfl⟩, ?_, ?_⟩ <;> simp [Session.inbound]
    · have hother : e.roster.peers[j]? ≠ some q := by
        rw [hj]
        exact fun h => hq (some.inj h)
      refine iff_of_false ?_ ?_
      · by_cases hrecord : ∃ response', (e.slots.cell slot).session.answered = some (msg, response')
        · obtain ⟨response', hanswered'⟩ := hrecord
          obtain ⟨frags, -, hrun⟩ := run_recorded he hat hj hanswered'
          refine not_reanswered hlen hother fun d hd => ?_
          rw [hrun] at hd
          obtain ⟨f, -, rfl⟩ := mem_map.mp hd
          rfl
        · exact unrecorded_not_reanswered he hlen (run_repeatedAt_of_ne hat hj (not_exists.mp hrecord) _)
      · rintro ⟨j', hj', hslot⟩
        obtain rfl := some.inj hj'
        exact hother hslot

end

/-! ### A peer whose endpoint moves -/

theorem receive_congr {e' : Engine P F} (hkey : e'.inMacKey = e.inMacKey)
    (hcookie : e'.cookie = e.cookie) (reasm : Reassembler) (datagram : Bytes) (src : SocketAddr) (nowMs : ℕ) :
    ((receive reasm datagram src nowMs).run e').2 = ((receive reasm datagram src nowMs).run e).2 := by
  have hmac hdr payload : ((checkFragMac hdr payload src).run e').2
      = ((checkFragMac hdr payload src).run e).2 := by
    cases h : macMatches P e.inMacKey hdr payload <;> simp [checkFragMac, hkey, hcookie, h]
  rw [receive]
  cases splitDatagram datagram with
  | error err => simp only [run_pure]
  | ok parts =>
    dsimp only
    split_ifs
    · simp only [run_pure]
    · simp only [run_bind, hmac]
      split_ifs
      · simp only [run_pure]
      · split <;> simp only [run_pure]

def addrOf (host : BitVec 32) : SocketAddr := ⟨.v4 host, 51820⟩

def node : Datapath.Config reference where
  keys := ⟨(0 : UInt8), (0 : UInt8)⟩
  addresses := []
  pskEpoch := 0
  relays := []
  gatewayForwarding := false
  peers := [⟨[], [], ⟨(1 : UInt8), Vector.replicate 32 0⟩, some (addrOf 1), [], none, none⟩]
  routes := .empty
  filter := .unrestricted
  sshFilter := .absent

def start : Engine reference .silent := Engine.new node

def peerInit : Bytes :=
  match initiate (P := reference) ⟨(1 : UInt8), (1 : UInt8)⟩ ⟨(0 : UInt8), Vector.replicate 32 0⟩ ⟨0, 1⟩
      ⟨Vector.replicate 64 0, Vector.replicate 32 0, Vector.replicate TIMESTAMP_LEN 0⟩ with
  | .ok (_, msg1) => msg1
  | .error _ => []

def pieces : List Bytes := (fragment reference .handshakeInit 7 peerInit start.inMacKey).getD []

def reassembling : Reassembler :=
  (pieces.take 2).foldl (fun r d => ((receive r d (addrOf 1) 1).run start).2.1)
    (Reassembler.new Proto.Config.default)

def lastPiece : Bytes := pieces.getD 2 []

def randomness (b : UInt8) : ResponderRandomness := ⟨Vector.replicate 32 b, Vector.replicate 32 b⟩

def ambient : Ambient := ⟨0, .asStored⟩

def delivery (b : UInt8) : Call reference :=
  .inbound reassembling lastPiece (addrOf 1) 1 (randomness b) ambient

variable {e : Engine reference .silent}

theorem delivery_complete (hkey : e.inMacKey = start.inMacKey) (hcookie : e.cookie = none) :
    ∃ reasm', ((receive reassembling lastPiece (addrOf 1) 1).run e).2 = (reasm', .complete peerInit) := by
  have hstart : (match ((receive reassembling lastPiece (addrOf 1) 1).run start).2.2 with
      | .complete msg => msg == peerInit
      | _ => false) = true := by decide +kernel
  rw [receive_congr hkey hcookie]
  generalize ((receive reassembling lastPiece (addrOf 1) 1).run start).2 = received at hstart ⊢
  obtain ⟨reasm', outcome⟩ := received
  cases outcome with
  | complete msg => exact ⟨reasm', by rw [eq_of_beq hstart]⟩
  | nothing => cases hstart
  | cookieReply hdr payload => cases hstart
  | cookieRequired reassemblyId => cases hstart

theorem senderAt_node (hroster : e.roster = start.roster) (addr : SocketAddr) :
    senderAt e addr = if (e.slots.cell 0).endpoint = some addr then some 0 else none := by
  have hpeers : e.roster.peers = [0] := by
    rw [hroster]
    rfl
  have hrange : range [(0 : Ref)].length = [0] := rfl
  have hend : endpointOf e 0 = (e.slots.cell 0).endpoint := by
    rw [endpointOf, hpeers]
    rfl
  rw [senderAt, hpeers, hrange, find?_cons, hend]
  by_cases h : (e.slots.cell 0).endpoint = some addr <;> simp [h]

theorem step_delivery (hroster : e.roster = start.roster) (hkey : e.inMacKey = start.inMacKey)
    (hcookie : e.cookie = none) {b : UInt8}
    (hrepeat : (repeatedAt e.roster peerInit (addrOf 1)
      (seedFromResponderRandomness reference (randomness b))).run e = (e, none))
    (hrespond : (respondFor start.roster peerInit (randomness b)
      ((senderAt e (addrOf 1)).elim 0 localIndex)).map Prod.fst = some 0) :
    ∃ msg2 keys, step e (delivery b) = e.writeSlot 0 { e.slots.cell 0 with
      endpoint := some (addrOf 1)
      session := ((e.slots.cell 0).session.adoptResponder peerInit keys msg2 1
        (seedFromResponderRandomness reference (randomness b))).1 } := by
  obtain ⟨reasm', hcomplete⟩ := delivery_complete hkey hcookie
  obtain ⟨⟨k, msg2, keys⟩, hanswer, rfl⟩ := map_eq_some_iff.mp hrespond
  rw [← hroster] at hanswer
  refine ⟨msg2, keys, ?_⟩
  rw [step, delivery, run_inbound hcomplete (respondFor_shape hanswer).1]
  exact run_unrecorded hrepeat hanswer (by rw [hroster]; rfl)

theorem first_delivery : ∃ msg2 keys, step start (delivery 5) = start.writeSlot 0 { start.slots.cell 0 with
      endpoint := some (addrOf 1)
      session := ((start.slots.cell 0).session.adoptResponder peerInit keys msg2 1
        (seedFromResponderRandomness reference (randomness 5))).1 } := by
  have hat : senderAt start (addrOf 1) = some 0 := by
    rw [senderAt_node rfl]
    rfl
  refine step_delivery rfl rfl rfl ?_ ?_
  · exact run_repeatedAt_of_ne hat rfl (by intro response h; cases h) _
  · rw [hat]
    decide +kernel

def moving : List (Call reference) := [delivery 5, .setEndpoint 0 (addrOf 2)]

/-- **Repeated handshakes** are answered from the record exactly if the session's peer is believed
to be at the source address. -/
theorem reanswered_iff (config : Config P) (calls : List (Call P)) {e : Engine P F}
    (hrun : Runs.run step (Engine.new config) calls = e) {q : Ref} {msg response : Bytes}
    (hanswered : (e.slots.cell q).session.answered = some (msg, response))
    {reasm reasm' : Reassembler} {datagram : Bytes} {src : SocketAddr} {nowMs : ℕ}
    (hcomplete : ((receive reasm datagram src nowMs).run e).2 = (reasm', .complete msg))
    (rand : ResponderRandomness) (amb : Ambient) :
    Reanswered e (((Call.inbound reasm datagram src nowMs rand amb).body e.roster).run e) q response
        src (deriveReassemblyId P (seedFromResponderRandomness P rand))
      ↔ ∃ j, ((peerAt src).run e).2 = some j ∧ e.roster.peers[j]? = some q := by
  have he : Sound e := hrun ▸ run_sound config calls
  have hinit : msg.head? = some 0x01 := ((he q).answered msg response hanswered).1
  rw [run_inbound hcomplete hinit, run_peerAt]
  exact acceptHandshake_reanswered_iff he hanswered

theorem reanswered_atEndpoint : ∃ response,
    (((Runs.run step start [delivery 5]).slots.cell 0).session).answered = some (peerInit, response)
    ∧ Reanswered (Runs.run step start [delivery 5])
      (((delivery 6).body (Runs.run step start [delivery 5]).roster).run (Runs.run step start [delivery 5]))
      0 response (addrOf 1)
      (deriveReassemblyId reference (seedFromResponderRandomness reference (randomness 6))) := by
  obtain ⟨msg2, keys, hstep⟩ := first_delivery
  have hnew : run step (Engine.new node) [delivery 5] = step start (delivery 5) := by
    rw [start]
    rfl
  have hrun : run step start [delivery 5] = step start (delivery 5) := rfl
  rw [hrun]
  have hanswered : (((step start (delivery 5)).slots.cell 0).session).answered = some (peerInit, msg2) := by
    rw [hstep, writeSlot_self, Session.adoptResponder_fst]
  obtain ⟨reasm', hcomplete⟩ := delivery_complete (e := step start (delivery 5))
    (by rw [hstep]; rfl) (by rw [hstep]; rfl)
  refine ⟨msg2, hanswered, ?_⟩
  refine (reanswered_iff node [delivery 5] hnew hanswered hcomplete (randomness 6) ambient).mpr ⟨0, ?_, ?_⟩
  · rw [run_peerAt, senderAt_node (by rw [hstep]; rfl), hstep, writeSlot_self, if_pos rfl]
  · rw [hstep]
    rfl

/-- The operator moves the peer's endpoint, and the init it sent before comes again from where it was:
it is answered afresh, and keys it asked for once wait beside those it asked for first. -/
theorem moved_answered_afresh : ∃ response,
    (((Runs.run step start moving).slots.cell 0).session).answered = some (peerInit, response)
    ∧ (((Runs.run step start moving).slots.cell 0).session).inbound = some ⟨0, none, none⟩
    ∧ ((receive reassembling lastPiece (addrOf 1) 1).run (Runs.run step start moving)).2.2
      = .complete peerInit ∧ ¬ Reanswered (Runs.run step start moving)
      (((delivery 6).body (Runs.run step start moving).roster).run (Runs.run step start moving))
      0 response (addrOf 1)
      (deriveReassemblyId reference (seedFromResponderRandomness reference (randomness 6)))
    ∧ (((step (Runs.run step start moving) (delivery 6)).slots.cell 0).session).inbound
      = some ⟨0, some 1, none⟩ := by
  obtain ⟨msg2, keys, hfirst⟩ := first_delivery
  generalize hmoved : run step start moving = e
  have he : e = start.writeSlot 0 { start.slots.cell 0 with
      endpoint := some (addrOf 2)
      session := ((start.slots.cell 0).session.adoptResponder peerInit keys msg2 1
        (seedFromResponderRandomness reference (randomness 5))).1 } := by
    rw [← hmoved]
    show step (step start (delivery 5)) (.setEndpoint 0 (addrOf 2)) = _
    rw [hfirst, step_setEndpoint (show _ = some 0 from rfl), writeSlot_writeSlot, writeSlot_self]
  have hcell := (congrArg (fun e => e.slots.cell 0) he).trans (writeSlot_self 0 start _)
  dsimp only at hcell
  have hinbound : (e.slots.cell 0).session.inbound = some ⟨0, none, none⟩ := by
    rw [hcell, Session.adoptResponder_fst]
    rfl
  have hroster : e.roster = start.roster := by rw [he, writeSlot_roster]
  have hkey : e.inMacKey = start.inMacKey := by
    rw [he]
    rfl
  have hcookie : e.cookie = none := by
    rw [he]
    rfl
  have hat : senderAt e (addrOf 1) = none := by
    rw [senderAt_node hroster, hcell]
    rfl
  obtain ⟨reasm', hcomplete⟩ := delivery_complete hkey hcookie
  obtain ⟨msg2', keys', hsecond⟩ := step_delivery hroster hkey hcookie (b := 6)
    (run_repeatedAt_none hat _) (by rw [hat]; decide +kernel)
  have hafter : ((step e (delivery 6)).slots.cell 0).session.inbound = some ⟨0, some 1, none⟩ := by
    rw [hsecond, writeSlot_self, hcell, Session.adoptResponder_fst, Session.adoptResponder_fst]
    rfl
  refine ⟨msg2, ?_, hinbound, ?_, ?_, hafter⟩
  · rw [hcell, Session.adoptResponder_fst]
  · rw [hcomplete]
  · intro h
    have hkept : ((step e (delivery 6)).slots.cell 0).session.inbound = (e.slots.cell 0).session.inbound := by
      rw [step]
      exact h.keys
    rw [hinbound, hafter] at hkept
    cases hkept

end Karst.Datapath.HandshakeAnswers
