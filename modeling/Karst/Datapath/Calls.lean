import Karst.Node.Answers
import Karst.Datapath.Engine

/-!
# What the calls of the engine do

Two facts about every call, from one walk over the engine's programs: where its datagrams go, whatever
other calls do between its locks, and that it keeps the record of every session.
-/

namespace Karst.Datapath.Calls

open Crypto Engine Noise Proto Node Option Prog Preserves Session
open List hiding Vector

variable {P : Primitives} {F : FileTransfers}

/-! ### Who is at an address -/

def endpointOf (e : Engine P F) (i : PeerIndex) : Option SocketAddr :=
  (e.roster.peers[i]?).bind fun slot => (e.slots.cell slot).endpoint

variable (e : Engine P F)

@[simp] theorem run_endpoint (i : PeerIndex) : (endpoint i).run e = (e, endpointOf e i) := by
  rw [endpoint, run_bind, run_readRoster, endpointOf]
  cases e.roster.peers[i]? <;> rfl

theorem run_findPeer (addr : SocketAddr) (l : List PeerIndex) :
    (findPeer addr l).run e = (e, l.find? fun i => endpointOf e i = some addr) := by
  induction l with
  | nil => rfl
  | cons i rest ih =>
    rw [findPeer, run_bind, run_endpoint, find?_cons]
    by_cases h : endpointOf e i = some addr
    · simp [h]
    · simp [h, ih]

def senderAt (e : Engine P F) (addr : SocketAddr) : Option PeerIndex :=
  (List.range e.roster.peers.length).find? fun i => endpointOf e i = some addr

@[simp] theorem run_peerAt (addr : SocketAddr) : (peerAt addr).run e = (e, senderAt e addr) := by
  rw [peerAt, run_bind, run_readRoster, run_findPeer]
  rfl

theorem via_fst (roster : Roster P) (i : PeerIndex) (e : Engine P F) : ((via roster i).run e).1 = e := by
  rw [via, run_bind, run_endpoint]
  split
  · rfl
  · rw [viaRelay]
    split_ifs
    · split
      · rfl
      · have hrefused : ((refused roster i).run e).1 = e := by
          rw [refused]
          split <;> rfl
        rw [run_bind, hrefused]
        split_ifs
        · split <;> rfl
        · rfl
    · rfl

/-! ### Sessions and their records -/

/-- Every session's keys are allocated and its record is a response to an init. -/
def Sound (e : Engine P F) : Prop := ∀ slot, (e.slots.cell slot).session.Sound

theorem onSlot_preserves {β : Type} {slot : Ref} {f : PeerSlot P F → PeerSlot P F × β}
    (hf : ∀ s, s.session.Sound → (f s).1.session.Sound) : Preserves Sound (onSlot slot f) :=
  preserves_act fun e he =>
    forall_writeSlot (Q := fun _ s => s.session.Sound) slot e he (hf _ (he slot))

theorem onSession_preserves {β : Type} {slot : Ref} {f : Session P → Session P × β}
    (hf : ∀ s, s.Sound → (f s).1.Sound) : Preserves Sound (onSession slot f : EngineM P F β) :=
  onSlot_preserves fun s hs => hf s.session hs

/-! ### Where a call sends -/

section

variable (S : Bool → Engine P F → Prop) (r : Roster P)

/-- A way to reach position `i`: an endpoint of the slot that is at that position when the call
reads the roster, or the relayed identity of the peer in the call's own roster. -/
def Addressed (i : PeerIndex) : Via → Prop
  | .direct addr => ∃ s s' slot, S true s ∧ S false s' ∧ s.roster.peers[i]? = some slot
      ∧ (s'.slots.cell slot).endpoint = some addr
  | .relay relay destination => r.relayId i = some destination
      ∧ ∀ home, relay = some home → r.homeRelay i = some home

/-- Every datagram of a session is addressed to the position of the session's peer. -/
def Sends (out : Output) : Prop :=
  ∀ d ∈ out.datagrams, ∀ i, d.peer = some i → i < r.peers.length ∧ Addressed S r i d.via

variable {S r}

theorem sends_empty : Sends S r .empty := fun _ hd => absurd hd not_mem_nil

theorem sends_packets (packets : List Bytes) : Sends S r ⟨[], packets⟩ :=
  fun _ hd => absurd hd not_mem_nil

theorem Sends.append {out out' : Output} (h : Sends S r out) (h' : Sends S r out') :
    Sends S r (out ++ out') := by
  intro d hd
  rw [Output.append_datagrams, mem_append] at hd
  exact hd.elim (h d) (h' d)

theorem sends_map {i : PeerIndex} {v : Via} (hi : i < r.peers.length) (hv : Addressed S r i v)
    (frags : List Bytes) : Sends S r ⟨frags.map fun f => ⟨some i, f, v⟩, []⟩ := by
  intro d hd j hj
  obtain ⟨f, -, rfl⟩ := mem_map.mp hd
  obtain rfl := some.inj hj
  exact ⟨hi, hv⟩

theorem sends_anonymous (frags : List Bytes) (v : Via) : Sends S r ⟨frags.map fun f => ⟨none, f, v⟩, []⟩ := by
  intro d hd j hj
  obtain ⟨f, -, rfl⟩ := mem_map.mp hd
  cases hj

/-! ### Paths -/

variable (i : PeerIndex)

theorem endpoint_addressed : Ensures S (fun a => ∀ addr, a = some addr → Addressed S r i (.direct addr))
      (endpoint i) := by
  refine Ensures.bind (Q := fun live => ∃ s, S true s ∧ s.roster = live)
    (ensures_view fun s hs => ⟨s, hs, rfl⟩) fun live ⟨s, hs, hlive⟩ => ?_
  split
  · exact ensures_pure fun addr h => by cases h
  · rename_i slot hslot
    exact ensures_view fun s' hs' addr haddr => ⟨s, s', slot, hs, hs', hlive ▸ hslot, haddr⟩

theorem viaRelay_addressed : Ensures S (fun v => ∀ v', v = some v' → Addressed S r i v') (viaRelay r i) := by
  rw [viaRelay]
  split_ifs
  · split
    · exact ensures_pure fun v h => by cases h
    · rename_i destination hdest
      have hown : Addressed S r i (.relay none destination) := ⟨hdest, by simp⟩
      refine Ensures.bind ensures_true fun refused _ => ?_
      split_ifs
      · split
        · refine Ensures.bind ensures_true fun own _ => ensures_pure fun v hv => ?_
          obtain rfl := some.inj hv
          refine ⟨hdest, fun home' h => ?_⟩
          split_ifs at h
          rwa [← h]
        · exact ensures_pure fun v hv => some.inj hv ▸ hown
      · exact ensures_pure fun v hv => some.inj hv ▸ hown
  · exact ensures_pure fun v h => by cases h

theorem via_addressed : Ensures S (fun v => ∀ v', v = some v' → Addressed S r i v') (via r i) := by
  refine (endpoint_addressed (r := r) i).bind fun a ha => ?_
  split
  · rename_i addr
    exact ensures_pure fun v hv => some.inj hv ▸ ha addr rfl
  · exact viaRelay_addressed i

/-! ### Calls -/

theorem lt_of_slot {i : PeerIndex} {slot : Ref} (h : r.peers[i]? = some slot) : i < r.peers.length :=
  (List.getElem?_eq_some_iff.mp h).1

variable (S r)

/-- Keeps the sessions sound and, if `c`, sends to the positions of the roster. -/
abbrev Proper (c : Prop) (p : EngineM P F Output) : Prop := Prog.Meets S Sound c (Sends S r) p

variable {S r} {c : Prop} {nowMs : ℕ} {amb : Ambient} {rand : ResponderRandomness}

theorem proper_empty : Proper S r c (pure .empty) :=
  meets_pure fun _ => sends_empty

theorem proper_outputs {α : Type} {f : Output → α → EngineM P F Output} (l : List α)
    (hf : ∀ out, ∀ a ∈ l, Proper S r (c ∧ Sends S r out) (f out a)) :
    Proper S r c (l.foldlM f .empty) := meets_foldlM (fun _ => sends_empty) hf

theorem Proper.append {p : EngineM P F Output} (h : Proper S r c p) (out : Output) :
    Proper S r (c ∧ Sends S r out) (p >>= fun out' => pure (out ++ out')) :=
  (h.of And.left).bind fun _ => meets_pure fun hc => hc.1.2.append hc.2

theorem via_meets : Meets S Sound c (fun v => ∀ v', v = some v' → Addressed S r i v') (via r i) :=
  ⟨fun _ => via_addressed i, fun e he => by rwa [via_fst]⟩

theorem peerAt_preserves (src : SocketAddr) :
    Preserves Sound (peerAt src : EngineM P F _) := fun e he => by rwa [run_peerAt]

theorem sendSealed_proper (v : Via) (payload : Bytes) :
    Proper S r (Addressed S r i v) (sendSealed r i v payload nowMs) := by
  rw [sendSealed]
  split
  · exact proper_empty
  · rename_i slot hslot
    refine (onSession_preserves fun s hs => ?_).andThen fun handles => ?_
    · split
      · exact hs
      · exact hs.of_state rfl (Nat.le_refl _) rfl
    · split
      · exact proper_empty
      · refine (onSession_preserves fun s hs => hs.of_state rfl (Nat.le_refl _) rfl).andThen fun m => ?_
        split
        · exact meets_pure fun hv => sends_map (lt_of_slot hslot) hv _
        · exact proper_empty

theorem onFileTransferFrame_proper (payload : Bytes) :
    Proper S r c (onFileTransferFrame r i payload nowMs) := by
  rw [onFileTransferFrame]
  split
  · exact proper_empty
  · refine (onSlot_preserves fun s hs => hs).andThen fun frames => (via_meets i).bind fun v => ?_
    split
    · exact proper_empty
    · rename_i v
      refine proper_outputs frames fun out frame _ => ?_
      exact ((sendSealed_proper i v frame).append out).of fun h => ⟨h.1.2 v rfl, h.2⟩

theorem sshGatePermits_preserves (config : Config P) (slot : Ref) (a : Arrival) :
    Preserves Sound (sshGatePermits config slot a amb : EngineM P F _) := by
  refine (onSlot_preserves fun s hs => hs).bind fun admitted => ?_
  split_ifs
  · exact preserves_pure
  · exact onSlot_preserves fun s hs => hs
  · exact preserves_pure

theorem evaluate_preserves (a : Arrival) : Preserves Sound (evaluate r a amb : EngineM P F _) := by
  rw [evaluate]
  split_ifs
  · exact preserves_pure
  · split
    · split
      · exact preserves_pure
      · refine (preserves_act fun e he => he).bind fun compliant => ?_
        split_ifs
        · exact preserves_pure
        · refine (sshGatePermits_preserves _ _ a).bind fun ok => ?_
          split_ifs <;> exact preserves_pure
        · exact preserves_pure
    · exact preserves_pure
    · exact preserves_pure

theorem permit_preserves (a : Arrival) : Preserves Sound (permit r a amb : EngineM P F _) := by
  refine (evaluate_preserves a).bind fun d => ?_
  cases d with
  | deny => exact preserves_pure
  | granted =>
    rw [settle]
    split
    · exact preserves_pure
    · exact onSlot_preserves fun s hs => hs
  | ask =>
    rw [settle]
    split
    · exact preserves_pure
    · exact onSlot_preserves fun s hs => hs

theorem deliverToHost_proper (packet : Bytes) : Proper S r c (deliverToHost r i packet nowMs amb) := by
  rw [deliverToHost]
  split_ifs
  · exact proper_empty
  · exact onFileTransferFrame_proper i packet
  · split
    · exact proper_empty
    · split_ifs
      · refine (permit_preserves _).andThen fun permitted => ?_
        split_ifs
        · split
          · exact meets_pure fun _ => sends_packets _
          · exact proper_empty
        · exact proper_empty
      · exact proper_empty

theorem apply_proper (actions : List Action) : Proper S r (actions ≠ [] → i < r.peers.length)
      (apply r i actions nowMs amb) := by
  refine (via_meets i).bind fun v => proper_outputs actions fun out action hmem => ?_
  cases action with
  | send d =>
    cases v with
    | none => exact meets_pure fun h => h.2
    | some v =>
      refine meets_pure fun ⟨⟨hi, hv⟩, hout⟩ => hout.append ?_
      exact sends_map (hi (ne_nil_of_mem hmem)) (hv v rfl) [d]
  | deliver packet => exact (deliverToHost_proper i packet).append out
  | established => exact meets_pure fun h => h.2
  | closed reason => exact meets_pure fun h => h.2

theorem sessionActions_meets {f : Session P → Session P × List Action} (hf : ∀ s, s.Sound → (f s).1.Sound) :
    Meets S Sound c (fun actions => actions ≠ [] → i < r.peers.length) (sessionActions r i f) := by
  rw [sessionActions]
  split
  · exact meets_pure fun _ h => absurd rfl h
  · rename_i slot hslot
    exact ⟨fun _ => ensures_true.mono fun _ _ _ => lt_of_slot hslot, onSession_preserves hf⟩

theorem outbound_proper (packet : Bytes) : Proper S r c (outbound r packet nowMs amb) := by
  rw [outbound]
  split
  · exact proper_empty
  · rename_i i _
    refine (permit_preserves _).andThen fun permitted => ?_
    split_ifs
    · refine (via_meets i).bind fun v => ?_
      split
      · exact (sendSealed_proper i _ packet).of fun h => h.2 _ rfl
      · exact proper_empty
    · exact proper_empty

theorem claimHeadIfDue_proper : Proper S r c (claimHeadIfDue r i nowMs) := by
  refine andThen ?_ fun established => ?_
  · refine preserves_view.bind fun live => ?_
    split
    · exact preserves_pure
    · exact preserves_view
  · split_ifs
    · refine preserves_view.andThen fun bedrock => ?_
      split
      · refine (onSlot_preserves fun s hs => ?_).andThen fun due => ?_
        · split_ifs <;> exact hs
        · split_ifs
          · refine preserves_view.andThen fun again => ?_
            split
            · exact proper_empty
            · refine (via_meets i).bind fun v => ?_
              split
              · exact (sendSealed_proper i _ _).of fun h => h.2 _ rfl
              · exact proper_empty
          · exact proper_empty
      · exact proper_empty
    · exact proper_empty

theorem connect_sound {s : Session P} (hs : s.Sound) (seed : Seed) : (s.connect nowMs seed).1.Sound :=
  hs.of_turn connect_turn connect_answered

theorem pollPeer_proper (seed seed' : Seed) : Proper S r c (pollPeer r i nowMs seed seed' amb) := by
  refine (via_meets (S := S) (c := c) i).preserves.andThen fun v => ?_
  refine (sessionActions_meets i fun s hs => ?_).bind fun actions => ?_
  · have hpoll : (s.poll nowMs seed).1.Sound :=
      hs.of_turn poll_turn poll_answered
    split_ifs
    · exact connect_sound hpoll seed'
    · exact hpoll
  · refine ((apply_proper i actions).of And.right).bind fun out => ?_
    exact ((claimHeadIfDue_proper (c := c) i).append out).of fun h => ⟨h.1.1, h.2⟩

theorem poll_proper (seed : ℕ → Seed) : Proper S r c (poll r nowMs seed amb) := by
  refine andThen (preserves_forM fun slot _ => onSlot_preserves fun s hs => ?_)
    fun _ => proper_outputs _ fun out i _ => (pollPeer_proper i _ _).append out
  split_ifs <;> exact hs

theorem connectAll_proper (seed : ℕ → Seed) : Proper S r c (connectAll r nowMs seed amb) := by
  refine proper_outputs _ fun out i _ =>
    (via_meets (S := S) (c := c) i).preserves.andThen fun v => ?_
  split_ifs
  · refine (sessionActions_meets i fun s hs => connect_sound hs _).bind fun actions => ?_
    exact ((apply_proper i actions).append out).of fun h => ⟨h.2, h.1.2⟩
  · exact meets_pure fun h => h.2

theorem issueCookieReply_proper (src : SocketAddr) (reassemblyId : UInt32) :
    Proper S r c (issueCookieReply src reassemblyId rand) := by
  refine preserves_view.andThen fun cookie => ?_
  split
  · exact proper_empty
  · refine preserves_view.andThen fun live => preserves_view.andThen fun inMacKey => ?_
    dsimp only
    split
    · exact proper_empty
    · exact meets_pure fun _ => sends_anonymous _ _

theorem repeated_meets (msg : Bytes) (seed : Seed) :
    Meets S Sound c (fun again => again ≠ none → i < r.peers.length) (repeated r i msg seed) := by
  rw [repeated]
  split
  · exact meets_pure fun _ h => absurd rfl h
  · rename_i slot hslot
    refine ⟨fun _ => ensures_true.mono fun _ _ _ => lt_of_slot hslot, onSession_preserves fun s hs => ?_⟩
    rcases s.repeatResponse_fst msg seed with h | h
    · rwa [h]
    · rw [h]
      exact hs.of_state rfl (Nat.le_refl _) rfl

theorem respondFor_shape {msg : Bytes} {index : UInt32} {i : PeerIndex}
    {msg2 : Bytes} {keys : TransportKeys} (h : respondFor r msg rand index = some (i, msg2, keys)) :
    msg.head? = some 0x01 ∧ msg2.length = RESPONSE_LEN := by
  rw [respondFor] at h
  split at h
  · cases h
  · rename_i out pending hrespond
    obtain ⟨j, -, hj⟩ := map_eq_some_iff.mp h
    cases hj
    exact respond_shape hrespond

theorem adopt_proper {msg msg2 : Bytes} (hmsg : msg.head? = some 0x01)
    (hmsg2 : msg2.length = RESPONSE_LEN) (keys : TransportKeys) :
    Proper S r c (adopt r i msg keys msg2 nowMs rand amb) := by
  refine (sessionActions_meets i fun s hs => ?_).bind fun actions =>
    (apply_proper i actions).of And.right
  exact adoptResponder_sound hs hmsg hmsg2 keys nowMs _

theorem acceptHandshake_proper (msg : Bytes) (src : SocketAddr) :
    Proper S r c (acceptHandshake r msg src nowMs rand amb) := by
  have hagain : Meets S Sound c (fun again => ∀ i actions, again = some (i, actions) → i < r.peers.length)
      (repeatedAt r msg src (seedFromResponderRandomness P rand)) := by
    refine (peerAt_preserves src).andThen fun peer => ?_
    split
    · exact meets_pure fun _ _ _ h => by cases h
    · refine (repeated_meets _ msg _).bind fun again => meets_pure fun h i actions heq => ?_
      cases again with
      | none => cases heq
      | some actions =>
        cases heq
        exact h.2 (by simp)
  refine hagain.bind fun again => ?_
  split
  · exact (apply_proper _ _).of fun h _ => h.2 _ _ rfl
  · refine (peerAt_preserves src).andThen fun peer => ?_
    dsimp only
    split
    · exact proper_empty
    · rename_i hrespond
      obtain ⟨hmsg, hmsg2⟩ := respondFor_shape hrespond
      refine andThen ?_ fun _ => adopt_proper _ hmsg hmsg2 _
      rw [learnEndpoint]
      split
      · exact preserves_pure
      · exact onSlot_preserves fun s hs => hs

theorem acceptRelayedHandshake_proper (msg : Bytes) (expected : PeerIndex) :
    Proper S r c (acceptRelayedHandshake r msg expected nowMs rand amb) := by
  refine (repeated_meets expected msg _).bind fun again => ?_
  split
  · exact (apply_proper _ _).of fun h _ => h.2 (by simp)
  · split
    · exact proper_empty
    · rename_i hrespond
      obtain ⟨hmsg, hmsg2⟩ := respondFor_shape hrespond
      split_ifs
      · exact proper_empty
      · exact adopt_proper _ hmsg hmsg2 _

theorem openTransport_sends (slot : Ref) (inbound : Inbound) (msg : Bytes) :
    Ensures S (Sends S r) (openTransport r i slot inbound msg nowMs amb) := by
  have hdeliver (payload : Bytes) : Ensures S (Sends S r) (deliverToHost r i payload nowMs amb) :=
    (deliverToHost_proper i payload).ensures trivial
  refine ensures_true.bind fun result _ => ?_
  split
  · exact ensures_pure sends_empty
  · split
    · exact ensures_true.bind fun _ _ => hdeliver _
    · exact hdeliver _

theorem openTransport_sound {i : PeerIndex} {slot : Ref} {inbound : Inbound} {e : Engine P F}
    (he : Sound e) (hinbound : (e.slots.cell slot).session.inbound = some inbound) (msg : Bytes) :
    Sound ((openTransport r i slot inbound msg nowMs amb).run e).1 := by
  let s := (e.slots.cell slot).session
  let opened := inbound.openWith P s.arena msg nowMs
  let e' := e.writeSlot slot { e.slots.cell slot with session := { s with arena := opened.1 } }
  have hnext : opened.1.next = s.arena.next := (inbound.openWith_spec s.arena msg nowMs).later.2
  have hs' : ({ s with arena := opened.1 } : Session P).Sound :=
    (he slot).of_state rfl (Nat.le_of_eq hnext.symm) rfl
  have he' : Sound e' := forall_writeSlot (Q := fun _ s => s.session.Sound) slot e he hs'
  have hpromote : Sound (((onSession slot fun s => (s.promote inbound, ())) :
      EngineM P F Unit).run e').1 := by
    refine forall_writeSlot (Q := fun _ s => s.session.Sound) slot e' he' ?_
    rw [writeSlot_self]
    refine promote_sound hs' fun r hr => ?_
    rw [show ({ s with arena := opened.1 } : Session P).arena.next = s.arena.next from hnext]
    exact (he slot).wellFormed r ⟨inbound, hinbound, Or.inr (Or.inl hr)⟩
  have hdeliver : ∀ payload, Preserves Sound (deliverToHost r i payload nowMs amb : EngineM P F _) :=
    fun payload => (deliverToHost_proper (S := fun _ _ => True) (c := True) i payload).preserves
  rw [openTransport, run_bind, show run (onSession slot _) e = (e', opened.2) from rfl]
  split
  · exact he'
  · split
    · exact hdeliver _ _ hpromote
    · exact hdeliver _ _ he'

theorem acceptMessage_proper (msg : Bytes) : Proper S r c (acceptMessage r i msg nowMs amb) := by
  rw [acceptMessage]
  split
  · exact (apply_proper i []).of fun _ h => absurd rfl h
  · rename_i slot hslot
    have hdeliver : Proper S r c ((onSession slot fun s => s.deliver msg nowMs) >>= fun actions =>
        apply r i actions nowMs amb) := by
      refine (onSession_preserves fun s hs => ?_).andThen fun actions =>
        (apply_proper i actions).of fun _ _ => lt_of_slot hslot
      exact hs.of_turn deliver_turn (s.deliver_answered msg nowMs)
    dsimp only
    split_ifs
    · constructor
      · intro hc
        refine ensures_true.bind fun inbound _ => ?_
        split
        · exact openTransport_sends i slot _ msg
        · exact hdeliver.ensures hc
      · -- the keys that open the message are read from the session here
        intro e he
        rw [run_bind, run_readSlot]
        split
        · rename_i inbound hinbound
          exact openTransport_sound he hinbound msg
        · exact hdeliver.preserves e he
    · exact hdeliver

theorem acceptCookieReply_proper (hdr : FragmentHeader) (payload : Bytes) (src : SocketAddr) :
    Proper S r c (acceptCookieReply r hdr payload src nowMs rand amb) := by
  refine (peerAt_preserves src).andThen fun peer => ?_
  split
  · exact proper_empty
  · split
    · exact proper_empty
    · rename_i slot hslot
      refine (onSession_preserves fun s hs => ?_).andThen fun actions => ?_
      · rcases s.handleCookieReply_fst payload hdr (seedFromResponderRandomness P rand) with h | h
        · rwa [h]
        · rw [h]
          exact hs.of_state rfl (Nat.le_refl _) rfl
      · split
        · exact proper_empty
        · exact (apply_proper _ _).of fun _ _ => lt_of_slot hslot

variable (reasm : Reassembler)

theorem Proper.snd {p : EngineM P F Output} (h : Proper S r c p) :
    Meets S Sound c (fun x => Sends S r x.2) (p >>= fun out => pure (reasm, out)) :=
  h.bind fun _ => meets_pure And.right

theorem receive_fst (datagram : Bytes) (src : SocketAddr) (e : Engine P F) :
    ((receive reasm datagram src nowMs).run e).1 = e := by
  have hmac hdr payload : ((checkFragMac hdr payload src).run e).1 = e := by
    rw [checkFragMac, run_bind, run_view]
    split_ifs <;> rfl
  rw [receive]
  split
  · rfl
  · split_ifs
    · rfl
    · rw [run_bind, hmac]
      dsimp only
      split_ifs
      · rfl
      · split <;> rfl

theorem inbound_meets (datagram : Bytes) (src : SocketAddr) : Meets S Sound c (fun x => Sends S r x.2)
      (inbound r reasm datagram src nowMs rand amb) := by
  refine andThen (fun e he => ?_) fun ⟨reasm, received⟩ => ?_
  · rwa [receive_fst]
  · cases received with
    | nothing => exact meets_pure fun _ => sends_empty
    | cookieReply hdr payload =>
      exact (acceptCookieReply_proper hdr payload src).snd reasm
    | cookieRequired reassemblyId => exact (issueCookieReply_proper src reassemblyId).snd reasm
    | complete msg =>
      dsimp only
      split_ifs
      · exact (acceptHandshake_proper msg src).snd reasm
      · refine (peerAt_preserves src).andThen fun peer => ?_
        split
        · exact meets_pure fun _ => sends_empty
        · exact (acceptMessage_proper _ msg).snd reasm

theorem inboundFromRelay_meets (sourceId : RelayId) (datagram : Bytes) :
    Meets S Sound c (fun x => Sends S r x.2) (inboundFromRelay r reasm sourceId datagram nowMs rand amb) := by
  rw [inboundFromRelay]
  split
  · refine preserves_view.andThen fun key => ?_
    split_ifs
    · split
      · split_ifs
        · exact (acceptRelayedHandshake_proper _ _).snd _
        · exact (acceptMessage_proper _ _).snd _
      · exact meets_pure fun _ => sends_empty
    · exact meets_pure fun _ => sends_empty
  · exact meets_pure fun _ => sends_empty

theorem reconfigure_preserves (config : Config P) :
    Preserves Sound (reconfigure r config : EngineM P F _) := by
  refine bind ?_ fun next => preserves_act fun e he => he
  refine bind (preserves_act fun e he slot => ?_) fun next => ?_
  · rcases buildSlots_cell config r.carried config.peers 0 e.slots slot with h | ⟨i, peer, h⟩
    · have hcell : (buildRoster config r.carried e.slots).1.cell slot = e.slots.cell slot := h
      rw [hcell]
      exact he slot
    · have hcell : (buildRoster config r.carried e.slots).1.cell slot = newSlot config i peer := h
      rw [hcell]
      exact new_sound _ _ _ _
  · have hclear : Preserves Sound (clearFlows next >>= fun _ => pure next : EngineM P F _) :=
      bind (preserves_forM fun slot _ => onSlot_preserves fun s hs => hs) fun _ => preserves_pure
    split_ifs
    · refine bind (preserves_forM fun x _ => ?_) fun _ => hclear
      split
      split_ifs
      · exact onSession_preserves fun s hs => hs.of_state rfl (Nat.le_refl _) rfl
      · exact preserves_pure
    · exact hclear

/-- **Every call** sends to the positions of the roster it copied, whatever states its steps find, and
keeps every session's record. -/
theorem call_proper (call : Call P) : Proper S r c (call.body r) := by
  have hquiet {α : Type} {p : EngineM P F α} (h : Preserves Sound p) :
      Proper S r c (p >>= fun _ => pure Output.empty) := h.andThen fun _ => proper_empty
  have hmark (peerId : RelayId) (offHome : ℕ) : Preserves Sound
      (markHome r peerId offHome : EngineM P F _) := by
    rw [markHome]
    split
    · exact preserves_pure
    · exact onSlot_preserves fun s hs => hs
  cases call with
  | outbound packet nowMs amb => exact outbound_proper packet
  | inbound reasm datagram src nowMs rand amb =>
    exact (inbound_meets reasm datagram src).bind fun _ => meets_pure And.right
  | inboundFromRelay reasm sourceId datagram nowMs rand amb =>
    exact (inboundFromRelay_meets reasm sourceId datagram).bind fun _ =>
      meets_pure And.right
  | poll nowMs seed amb => exact poll_proper seed
  | connectAll nowMs seed amb => exact connectAll_proper seed
  | reconfigure config => exact hquiet (reconfigure_preserves config)
  | setEndpoint peer addr =>
    refine hquiet (preserves_view.bind fun live => ?_)
    split
    · exact preserves_pure
    · exact onSlot_preserves fun s hs => hs
  | releaseEndpoint peer installed =>
    refine hquiet (preserves_view.bind fun live => ?_)
    split
    · exact preserves_pure
    · refine onSlot_preserves fun s hs => ?_
      split_ifs <;> exact hs
  | rotateCookie nowMs seed =>
    refine hquiet (preserves_act fun e he => ?_)
    dsimp only
    split
    · exact he
    · split_ifs <;> exact he
  | setHomeRelay id => exact hquiet (preserves_act fun e he => he)
  | setBedrock head seq => exact hquiet (preserves_act fun e he => he)
  | setCompliancePermit update =>
    refine hquiet ?_
    cases update with
    | unchanged => exact preserves_pure
    | fresh snapshot => exact preserves_act fun e he => he
    | lost => exact preserves_act fun e he => he
  | seenOnHomeRelay peerId => exact hquiet (hmark peerId 0)
  | relayUnreachable peerId nowMs => exact hquiet (hmark peerId (max nowMs 1))

end

end Karst.Datapath.Calls
