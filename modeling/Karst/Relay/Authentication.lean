import Karst.Foundations.Collections
import Karst.Foundations.Runs
import Karst.Crypto.Reference
import Karst.Relay.Handshake

/-!
# Mutual authentication

Any number of client and relay handshakes over a network that delivers what it likes to whom it
likes.  Signatures are ideal: what verifies was signed with the key, and no two messages are given one
signature.  Everything that was hashed to sign or to verify is recorded, and SHA-512 is asked to be
injective there.
-/

namespace Karst.Relay

open Crypto Option RelayHandshake
open List hiding Vector

/-! ### Signing inputs -/

theorem pushField_append_inj {x y a b : Bytes} (hlen : x.length = y.length)
    (h : pushField x ++ a = pushField y ++ b) : x = y ∧ a = b := by
  rw [pushField, pushField, append_assoc, append_assoc, hlen] at h
  exact append_inj (append_cancel_left h) hlen

theorem transcriptInput_inj {label : Bytes} {s s' : Session}
    (h : transcriptInput label s = transcriptInput label s') : s = s' := by
  have hlen {n : ℕ} (v w : Vector UInt8 n) : v.toList.length = w.toList.length := by simp
  simp only [transcriptInput, append_assoc] at h
  obtain ⟨hrelay, h⟩ := pushField_append_inj (hlen _ _) (append_cancel_left h)
  obtain ⟨hrandom, h⟩ := pushField_append_inj (hlen _ _) h
  obtain ⟨hclient, h⟩ := pushField_append_inj (hlen _ _) h
  obtain ⟨hpeer, h⟩ := pushField_append_inj (hlen _ _) h
  rw [← append_nil (pushField [s.role.toWire]), ← append_nil (pushField [s'.role.toWire])] at h
  obtain ⟨hrole, -⟩ := pushField_append_inj (x := [s.role.toWire]) (y := [s'.role.toWire]) rfl h
  have hrole : s.role = s'.role := by
    have hwire := (cons.inj hrole).1
    cases hs : s.role <;> cases hs' : s'.role <;> rw [hs, hs'] at hwire <;>
      first | rfl | exact absurd hwire (by decide)
  cases s
  cases s'
  simp only [Session.mk.injEq]
  exact ⟨Vector.toList_inj.mp hrelay, Vector.toList_inj.mp hrandom, Vector.toList_inj.mp hclient,
    Vector.toList_inj.mp hpeer, hrole⟩

theorem client_ne_relay (s s' : Session) :
    transcriptInput LABEL_CLIENT_AUTH s ≠ transcriptInput LABEL_RELAY_AUTH s' := by
  intro h
  have htake := congrArg (List.take 7) h
  simp only [transcriptInput, List.append_assoc] at htake
  rw [List.take_append_of_le_length (by decide), List.take_append_of_le_length (by decide)] at htake
  exact absurd htake (by decide)

/-! ### What a side signs and accepts -/

namespace ClientHandshake

variable {P : Primitives} {c : ClientHandshake} {frame : Frame}

def helloSession (c : ClientHandshake) : Frame → Option Session
  | .relayHello relayId relayRandom =>
    if c.state = .awaitingHello ∧ relayId = c.expectedRelayId then some (c.session relayRandom)
    else none
  | _ => none

def authSession (c : ClientHandshake) : Option Session :=
  match c.state with
  | .awaitingAuth relayRandom => some (c.session relayRandom)
  | _ => none

theorem onRelayHello_ok {signer : Signer} (h : (c.onRelayHello P frame signer).2.toBool = true) :
    ∃ relayRandom, frame = .relayHello c.expectedRelayId relayRandom
      ∧ c.helloSession frame = some (c.session relayRandom)
      ∧ (signer (clientAuthSigningInput P (c.session relayRandom))).isSome := by
  revert h
  fun_cases onRelayHello P c frame signer with
  | case4 relayId relayRandom hstate hrelay input signature hsome =>
    intro _
    obtain rfl := not_not.mp hrelay
    rw [filter_eq_some_iff] at hsome
    refine ⟨relayRandom, rfl, if_pos ⟨not_not.mp hstate, rfl⟩, ?_⟩
    exact isSome_iff_exists.mpr ⟨signature, hsome.1⟩
  | _ =>
    intro h
    cases h

theorem onRelayAuth_ok {verify : Verifier} (h : (c.onRelayAuth P frame verify).2.toBool = true) :
    ∃ signature relayRandom, frame = .relayAuth signature ∧ c.state = .awaitingAuth relayRandom
      ∧ verify c.relayIdentityPk (relayAuthSigningInput P (c.session relayRandom)) signature = true := by
  revert h
  fun_cases onRelayAuth P c frame verify with
  | case2 signature relayRandom hstate input hverify =>
    intro _
    exact ⟨signature, relayRandom, rfl, hstate, by simpa using hverify⟩
  | _ =>
    intro h
    cases h

/-- What a handshake was begun for stays, and so does a failure. -/
structure Continues (c c' : ClientHandshake) : Prop where
  clientRandom : c'.clientRandom = c.clientRandom
  failed : c.state = .failed → c'.state = .failed

variable (c : ClientHandshake)

theorem Continues.refl : Continues c c := ⟨rfl, id⟩

theorem continues_onRelayHello (frame : Frame) (signer : Signer) :
    Continues c (c.onRelayHello P frame signer).1 := by
  fun_cases onRelayHello P c frame signer with
  | case4 relayId relayRandom hstate =>
    refine ⟨rfl, fun hfailed => ?_⟩
    rw [not_not.mp hstate] at hfailed
    cases hfailed
  | _ => exact ⟨rfl, fun _ => rfl⟩

theorem continues_onRelayAuth (frame : Frame) (verify : Verifier) :
    Continues c (c.onRelayAuth P frame verify).1 := by
  fun_cases onRelayAuth P c frame verify with
  | case2 signature relayRandom hstate =>
    refine ⟨rfl, fun hfailed => ?_⟩
    rw [hstate] at hfailed
    cases hfailed
  | _ => exact ⟨rfl, fun _ => rfl⟩

end ClientHandshake

namespace RelayHandshake

variable {P : Primitives} {r : RelayHandshake} {frame : Frame}

/-- The session that a peer's authentication is checked for. -/
def authSession (r : RelayHandshake) : Frame → Option Session
  | .clientAuth role peerId clientRandom _ =>
    if r.state = .awaitingAuth then some ⟨r.relayId, r.relayRandom, clientRandom, peerId, role⟩
    else none
  | _ => none

theorem onClientAuth_ok {roster : Roster} {verify : Verifier} {signer : Signer}
    {admitted : Admitted} {bytes : Bytes}
    (h : (r.onClientAuth P frame roster verify signer).2 = .ok (admitted, bytes)) :
    ∃ s : Session, ∃ key signature, frame = .clientAuth s.role s.peerId s.clientRandom signature
      ∧ r.authSession frame = some s ∧ s.relayId = r.relayId ∧ s.relayRandom = r.relayRandom
      ∧ lookUp roster s.role s.peerId = (key, some admitted)
      ∧ verify key (clientAuthSigningInput P s) signature = true
      ∧ (signer (relayAuthSigningInput P s)).isSome := by
  revert h
  fun_cases onClientAuth P r frame roster verify signer with
  | case4 role peerId clientRandom signature hstate key found hlook session verified who hwho sig
      hsome =>
    intro h
    obtain ⟨rfl, -⟩ := Prod.mk.inj (Except.ok.inj h)
    rw [filter_eq_some_iff] at hwho hsome
    refine ⟨session, key, signature, rfl, if_pos (not_not.mp hstate), rfl, rfl, ?_, hwho.2, ?_⟩
    · rw [hlook, hwho.1]
    · exact isSome_iff_exists.mpr ⟨sig, hsome.1⟩
  | _ =>
    intro h
    cases h

structure Continues (r r' : RelayHandshake) : Prop where
  relayRandom : r'.relayRandom = r.relayRandom
  failed : r.state = .failed → r'.state = .failed

theorem Continues.refl (r : RelayHandshake) : Continues r r := ⟨rfl, id⟩

theorem continues_onClientAuth (r : RelayHandshake) (frame : Frame) (roster : Roster)
    (verify : Verifier) (signer : Signer) : Continues r (r.onClientAuth P frame roster verify signer).1 := by
  fun_cases onClientAuth P r frame roster verify signer with
  | case4 role peerId clientRandom signature hstate =>
    refine ⟨rfl, fun hfailed => ?_⟩
    rw [not_not.mp hstate] at hfailed
    cases hfailed
  | _ => exact ⟨rfl, fun _ => rfl⟩

end RelayHandshake

/-! ### The network -/

/-- A signature that was made: with whose key, of what. -/
structure Signed where
  key : Bytes
  message : Bytes
  signature : Bytes

/-- A client handshake, and the key that its signer holds. -/
structure Client where
  key : Bytes
  handshake : ClientHandshake
  deriving DecidableEq

structure Listener where
  key : Bytes
  handshake : RelayHandshake

/-- All handshakes, the signatures made so far, and what was hashed to sign or to verify. -/
structure Handshakes where
  clients : List Client
  listeners : List Listener
  signed : List Signed
  hashed : List Bytes

/-- A handshake begins, or the network hands a frame to one; what its signer would return comes with
it.  An insider signs with a key of its own. -/
inductive NetEvent where
  | dial (key : Bytes) (role : Role) (peerId expectedRelayId : Id) (relayIdentityPk : Bytes)
      (clientRandom : Random)
  | listen (key : Bytes) (relayId : Id) (relayRandom : Random)
  | relayHello (i : ℕ) (frame : Frame) (signature : Option Bytes)
  | clientAuth (j : ℕ) (frame : Frame) (roster : Roster) (signature : Option Bytes)
  | relayAuth (i : ℕ) (frame : Frame)
  | insider (key message signature : Bytes)

def Frame.signature : Frame → Bytes
  | .clientAuth _ _ _ signature => signature
  | .relayAuth signature => signature
  | _ => []

namespace Handshakes

variable (P : Primitives) (verify : Verifier)

def made (key : Bytes) (ok : Bool) (message signature : Option Bytes) : List Signed :=
  if ok then (message.bind fun m => signature.map fun sig => ⟨key, m, sig⟩).toList else []

def step (s : Handshakes) : NetEvent → Handshakes
  | .dial key role peerId expectedRelayId relayIdentityPk clientRandom =>
    { s with clients := s.clients ++ [⟨key, .new role peerId expectedRelayId relayIdentityPk clientRandom⟩] }
  | .listen key relayId relayRandom =>
    { s with listeners := s.listeners ++ [⟨key, .new relayId relayRandom⟩] }
  | .relayHello i frame signature =>
    match s.clients[i]? with
    | none => s
    | some c =>
      let r := c.handshake.onRelayHello P frame fun _ => signature
      let session := c.handshake.helloSession frame
      { s with
        clients := s.clients.set i ⟨c.key, r.1⟩
        signed := s.signed ++ made c.key r.2.toBool (session.map (clientAuthSigningInput P)) signature
        hashed := s.hashed ++ (session.map (transcriptInput LABEL_CLIENT_AUTH)).toList }
  | .clientAuth j frame roster signature =>
    match s.listeners[j]? with
    | none => s
    | some l =>
      let r := l.handshake.onClientAuth P frame roster verify fun _ => signature
      let session := l.handshake.authSession frame
      { s with
        listeners := s.listeners.set j ⟨l.key, r.1⟩
        signed := s.signed ++ made l.key r.2.toBool (session.map (relayAuthSigningInput P)) signature
        hashed := s.hashed ++ (session.map (transcriptInput LABEL_CLIENT_AUTH)).toList
          ++ (session.map (transcriptInput LABEL_RELAY_AUTH)).toList }
  | .relayAuth i frame =>
    match s.clients[i]? with
    | none => s
    | some c =>
      { s with
        clients := s.clients.set i ⟨c.key, (c.handshake.onRelayAuth P frame verify).1⟩
        hashed := s.hashed ++ (c.handshake.authSession.map (transcriptInput LABEL_RELAY_AUTH)).toList }
  | .insider key message signature => { s with signed := s.signed ++ [⟨key, message, signature⟩] }

def start : Handshakes := ⟨[], [], [], []⟩

def run (evs : List NetEvent) : Handshakes := Runs.run (step P verify) start evs

/-- No other message was given this signature. -/
def novel (s : Handshakes) (signature : Option Bytes) : Bool :=
  signature.all fun sig => s.signed.all fun x => x.signature ≠ sig

/-- If the signature verifies, it was made. -/
def unforged (s : Handshakes) (key message signature : Bytes) : Bool :=
  !verify key message signature || s.signed.any fun x =>
    x.key == key && x.message == message && x.signature == signature

/-- Randoms are fresh, signatures are not given twice, and none that is checked is forged. -/
def ideal (s : Handshakes) : NetEvent → Bool
  | .dial _ _ _ _ _ clientRandom => s.clients.all fun c => c.handshake.clientRandom ≠ clientRandom
  | .listen _ _ relayRandom => s.listeners.all fun l => l.handshake.relayRandom ≠ relayRandom
  | .relayHello _ _ signature => s.novel signature
  | .clientAuth j frame roster signature =>
    s.novel signature && s.listeners[j]?.all fun l =>
      (l.handshake.authSession frame).all fun session =>
        s.unforged verify (RelayHandshake.lookUp roster session.role session.peerId).1
          (clientAuthSigningInput P session) frame.signature
  | .relayAuth i frame =>
    s.clients[i]?.all fun c => c.handshake.authSession.all fun session =>
      s.unforged verify c.handshake.relayIdentityPk (relayAuthSigningInput P session) frame.signature
  | .insider _ _ signature => s.novel (some signature)

/-! ### What goes on -/

/-- Handshakes go on, and nothing that was signed or hashed is forgotten. -/
structure Extends (s s' : Handshakes) : Prop where
  clients : ∀ (i : ℕ) (c : Client), s.clients[i]? = some c →
    ∃ c' : Client, s'.clients[i]? = some c' ∧ c.handshake.Continues c'.handshake
  listeners : ∀ (j : ℕ) (l : Listener), s.listeners[j]? = some l →
    ∃ l' : Listener, s'.listeners[j]? = some l' ∧ l.handshake.Continues l'.handshake
  signed : s.signed ⊆ s'.signed
  hashed : s.hashed ⊆ s'.hashed

variable {P verify}

theorem Extends.refl (s : Handshakes) : Extends s s :=
  ⟨fun _ c h => ⟨c, h, .refl _⟩, fun _ l h => ⟨l, h, .refl _⟩, Subset.refl _, Subset.refl _⟩

variable {s : Handshakes}

theorem Extends.trans {s' s'' : Handshakes} (h : Extends s s') (h' : Extends s' s'') : Extends s s'' where
  clients := by
    intro i c hc
    obtain ⟨c', hc', hcont⟩ := h.clients i c hc
    obtain ⟨c'', hc'', hcont'⟩ := h'.clients i c' hc'
    exact ⟨c'', hc'', hcont'.clientRandom.trans hcont.clientRandom,
      fun hfailed => hcont'.failed (hcont.failed hfailed)⟩
  listeners := by
    intro j l hl
    obtain ⟨l', hl', hcont⟩ := h.listeners j l hl
    obtain ⟨l'', hl'', hcont'⟩ := h'.listeners j l' hl'
    exact ⟨l'', hl'', hcont'.relayRandom.trans hcont.relayRandom,
      fun hfailed => hcont'.failed (hcont.failed hfailed)⟩
  signed := Subset.trans h.signed h'.signed
  hashed := Subset.trans h.hashed h'.hashed

theorem extends_step (s : Handshakes) (e : NetEvent) : Extends s (step P verify s e) := by
  have hclients (i : ℕ) (c : Client) (h : s.clients[i]? = some c) :
      ∃ c' : Client, s.clients[i]? = some c' ∧ c.handshake.Continues c'.handshake := ⟨c, h, .refl _⟩
  have hlisteners (j : ℕ) (l : Listener) (h : s.listeners[j]? = some l) :
      ∃ l' : Listener, s.listeners[j]? = some l' ∧ l.handshake.Continues l'.handshake :=
    ⟨l, h, .refl _⟩
  fun_cases step P verify s e with
  | case1 =>
    refine ⟨?_, hlisteners, Subset.refl _, Subset.refl _⟩
    intro i c hc
    exact ⟨c, getElem?_concat hc _, .refl _⟩
  | case2 =>
    refine ⟨hclients, ?_, Subset.refl _, Subset.refl _⟩
    intro j l hl
    exact ⟨l, getElem?_concat hl _, .refl _⟩
  | case4 i frame signature c hi =>
    refine ⟨?_, hlisteners, subset_append_left _ _, subset_append_left _ _⟩
    exact exists_set (R := fun c c' : Client => c.handshake.Continues c'.handshake)
      (fun c => .refl _) hi (c.handshake.continues_onRelayHello frame _)
  | case6 j frame roster signature l hj =>
    refine ⟨hclients, ?_, subset_append_left _ _, ?_⟩
    · exact exists_set (R := fun l l' : Listener => l.handshake.Continues l'.handshake)
        (fun l => .refl _) hj (l.handshake.continues_onClientAuth frame roster verify _)
    · exact Subset.trans (subset_append_left _ _) (subset_append_left _ _)
  | case8 i frame c hi =>
    refine ⟨?_, hlisteners, Subset.refl _, subset_append_left _ _⟩
    exact exists_set (R := fun c c' : Client => c.handshake.Continues c'.handshake)
      (fun c => .refl _) hi (c.handshake.continues_onRelayAuth frame verify)
  | case9 => exact ⟨hclients, hlisteners, subset_append_left _ _, Subset.refl _⟩
  | _ => exact .refl s

theorem extends_run (s : Handshakes) (evs : List NetEvent) : Extends s (Runs.run (step P verify) s evs) :=
  Runs.run_rel Extends.refl (fun _ _ _ => Extends.trans) extends_step s evs

/-! ### Signatures -/

/-- The holder of a key signs for a session, in a client handshake: it meant to reach this relay and
was handed this random. -/
def ClientSigns (P : Primitives) (s : Handshakes) (e : NetEvent) (key : Bytes) (t : Session) : Prop :=
  ∃ i signature c, e = .relayHello i (.relayHello t.relayId t.relayRandom) signature
    ∧ s.clients[i]? = some c ∧ c.key = key ∧ c.handshake.session t.relayRandom = t
    ∧ (c.handshake.onRelayHello P (.relayHello t.relayId t.relayRandom) fun _ => signature).2.toBool = true

/-- The holder of a key signs for a session, in a relay handshake: this is its id and its random, and
the rest is what it was sent. -/
def RelaySigns (P : Primitives) (verify : Verifier) (s : Handshakes) (e : NetEvent) (key : Bytes)
    (t : Session) : Prop :=
  ∃ j sent roster signature l,
    e = .clientAuth j (.clientAuth t.role t.peerId t.clientRandom sent) roster signature
    ∧ s.listeners[j]? = some l ∧ l.key = key ∧ l.handshake.relayId = t.relayId
    ∧ l.handshake.relayRandom = t.relayRandom
    ∧ (l.handshake.onClientAuth P (.clientAuth t.role t.peerId t.clientRandom sent) roster verify
      fun _ => signature).2.toBool = true

inductive Makes (P : Primitives) (verify : Verifier) (s : Handshakes) (e : NetEvent) (x : Signed) :
    Prop where
  | client (t : Session) (hsigns : ClientSigns P s e x.key t)
      (hmessage : x.message = clientAuthSigningInput P t)
      (hhashed : transcriptInput LABEL_CLIENT_AUTH t ∈ (step P verify s e).hashed)
  | relay (t : Session) (hsigns : RelaySigns P verify s e x.key t)
      (hmessage : x.message = relayAuthSigningInput P t)
      (hhashed : transcriptInput LABEL_RELAY_AUTH t ∈ (step P verify s e).hashed)
  | insider (message signature : Bytes) (he : e = .insider x.key message signature)

theorem exists_ok {ε α : Type} {x : Except ε α} (h : x.toBool = true) : ∃ a, x = .ok a := by
  cases x with
  | error e => cases h
  | ok a => exact ⟨a, rfl⟩

variable {key : Bytes} {signature : Option Bytes} {x : Signed}

theorem mem_made {ok : Bool} {message : Option Bytes} : x ∈ made key ok message signature
      ↔ ok = true ∧ x.key = key ∧ message = some x.message ∧ signature = some x.signature := by
  cases ok <;> cases message <;> cases signature <;> cases x <;> simp [made, eq_comm]

theorem signed_step {e : NetEvent} (h : x ∈ (step P verify s e).signed) :
    x ∈ s.signed ∨ Makes P verify s e x := by
  revert h
  fun_cases step P verify s e with
  | case4 i frame signature c hi r session =>
    intro h
    refine (mem_append.mp h).imp_right fun hnew => ?_
    obtain ⟨hok, hkey, hmessage, hsignature⟩ := mem_made.mp hnew
    obtain ⟨relayRandom, rfl, hsession, -⟩ := ClientHandshake.onRelayHello_ok hok
    rw [show session = _ from hsession] at hmessage
    refine .client (c.handshake.session relayRandom) ?_ (some.inj hmessage).symm ?_
    · exact ⟨i, signature, c, rfl, hi, hkey.symm, rfl, hok⟩
    · rw [step, hi]
      refine mem_append_right _ ?_
      rw [hsession]
      exact mem_singleton_self _
  | case6 j frame roster signature l hj r session =>
    intro h
    refine (mem_append.mp h).imp_right fun hnew => ?_
    obtain ⟨hok, hkey, hmessage, hsignature⟩ := mem_made.mp hnew
    obtain ⟨result, hresult⟩ := exists_ok hok
    obtain ⟨t, key, sent, rfl, hsession, hrelay, hrandom, -⟩ :=
      onClientAuth_ok hresult
    rw [show session = _ from hsession] at hmessage
    refine .relay t ?_ (some.inj hmessage).symm ?_
    · exact ⟨j, sent, roster, signature, l, rfl, hj, hkey.symm, hrelay.symm, hrandom.symm, hok⟩
    · rw [step, hj]
      refine mem_append_right _ ?_
      rw [hsession]
      exact mem_singleton_self _
  | case9 key message signature =>
    intro h
    refine (mem_append.mp h).imp_right fun hnew => ?_
    rw [mem_singleton.mp hnew]
    exact .insider message signature rfl
  | _ => exact Or.inl

theorem exists_makes {evs : List NetEvent} (h : x ∈ (run P verify evs).signed) :
    ∃ a e b, evs = a ++ e :: b ∧ Makes P verify (run P verify a) e x :=
  Runs.exists_gain (fun s : Handshakes => x ∈ s.signed) (fun _ _ => signed_step) (by simp [start]) h

/-- No random is used twice, and no signature is given for two messages. -/
structure Distinct (s : Handshakes) : Prop where
  clients : (s.clients.map fun c => c.handshake.clientRandom).Nodup
  listeners : (s.listeners.map fun l => l.handshake.relayRandom).Nodup
  signed : (s.signed.map Signed.signature).Nodup

theorem distinct_start : Distinct start :=
  ⟨nodup_nil, nodup_nil, nodup_nil⟩

theorem nodup_map_concat {α β : Type*} [DecidableEq β] {f : α → β} {l : List α} {a : α}
    (hl : (l.map f).Nodup) (ha : l.all (fun b => decide (f b ≠ f a)) = true) : ((l ++ [a]).map f).Nodup := by
  rw [map_append]
  refine nodup_concat hl ?_
  intro hmem
  obtain ⟨b, hb, heq⟩ := mem_map.mp hmem
  exact absurd heq (decide_eq_true_eq.mp (all_eq_true.mp ha b hb))

theorem nodup_made (hs : (s.signed.map Signed.signature).Nodup) {ok : Bool}
    {message : Option Bytes} (hnovel : s.novel signature = true) :
    ((s.signed ++ made key ok message signature).map Signed.signature).Nodup := by
  cases ok with
  | false => simpa [made] using hs
  | true =>
    cases message with
    | none => simpa [made] using hs
    | some m =>
      cases signature with
      | none => simpa [made] using hs
      | some sig =>
        rw [novel, all_some] at hnovel
        exact nodup_map_concat hs hnovel

theorem distinct_step (s : Handshakes) (e : NetEvent) (hideal : ideal P verify s e = true)
    (hs : s.Distinct) : (step P verify s e).Distinct := by
  fun_cases step P verify s e with
  | case1 => exact ⟨nodup_map_concat hs.clients hideal, hs.listeners, hs.signed⟩
  | case2 => exact ⟨hs.clients, nodup_map_concat hs.listeners hideal, hs.signed⟩
  | case4 i frame signature c hi =>
    refine ⟨?_, hs.listeners, nodup_made hs.signed hideal⟩
    show ((s.clients.set i _).map _).Nodup
    rw [map_set_eq hi (c.handshake.continues_onRelayHello frame _).clientRandom]
    exact hs.clients
  | case6 j frame roster signature l hj =>
    refine ⟨hs.clients, ?_, nodup_made hs.signed (Bool.and_eq_true_iff.mp hideal).1⟩
    show ((s.listeners.set j _).map _).Nodup
    rw [map_set_eq hj (l.handshake.continues_onClientAuth frame roster verify _).relayRandom]
    exact hs.listeners
  | case8 i frame c hi =>
    refine ⟨?_, hs.listeners, hs.signed⟩
    show ((s.clients.set i _).map _).Nodup
    rw [map_set_eq hi (c.handshake.continues_onRelayAuth frame verify).clientRandom]
    exact hs.clients
  | case9 =>
    rw [ideal, novel, all_some] at hideal
    exact ⟨hs.clients, hs.listeners, nodup_map_concat hs.signed hideal⟩
  | _ => exact hs

/-! ### Acceptance -/

theorem mem_signed {message signature : Bytes} (hunforged : s.unforged verify key message signature = true)
    (hverify : verify key message signature = true) : ⟨key, message, signature⟩ ∈ s.signed := by
  rw [unforged, hverify, Bool.not_true, Bool.false_or] at hunforged
  obtain ⟨x, hx, hall⟩ := any_eq_true.mp hunforged
  simp only [Bool.and_eq_true, beq_iff_eq] at hall
  obtain ⟨⟨rfl, rfl⟩, rfl⟩ := hall
  exact hx

theorem signed_of_clientAuth {j : ℕ} {frame : Frame} {roster : Roster} {l : Listener}
    (hideal : ideal P verify s (.clientAuth j frame roster signature) = true)
    (hl : s.listeners[j]? = some l) {admitted : Admitted} {bytes : Bytes}
    (hok : (l.handshake.onClientAuth P frame roster verify fun _ => signature).2 = .ok (admitted, bytes)) :
    ∃ t : Session, ∃ key sent, frame = .clientAuth t.role t.peerId t.clientRandom sent
      ∧ t.relayId = l.handshake.relayId ∧ t.relayRandom = l.handshake.relayRandom
      ∧ lookUp roster t.role t.peerId = (key, some admitted)
      ∧ ⟨key, clientAuthSigningInput P t, sent⟩ ∈ s.signed ∧ transcriptInput LABEL_CLIENT_AUTH t
        ∈ (step P verify s (.clientAuth j frame roster signature)).hashed := by
  obtain ⟨t, key, sent, rfl, hsession, hrelay, hrandom, hlook, hverify, -⟩ :=
    onClientAuth_ok hok
  refine ⟨t, key, sent, rfl, hrelay, hrandom, hlook, ?_, ?_⟩
  · have hunforged := (Bool.and_eq_true_iff.mp hideal).2
    rw [hl, all_some, hsession, all_some, hlook] at hunforged
    exact mem_signed hunforged hverify
  · rw [step, hl]
    refine mem_append_left _ (mem_append_right _ ?_)
    rw [hsession]
    simp

theorem signed_of_relayAuth {i : ℕ} {frame : Frame} {c : Client}
    (hideal : ideal P verify s (.relayAuth i frame) = true) (hc : s.clients[i]? = some c)
    (hok : (c.handshake.onRelayAuth P frame verify).2.toBool = true) :
    ∃ sent relayRandom, frame = .relayAuth sent ∧ c.handshake.state = .awaitingAuth relayRandom
      ∧ ⟨c.handshake.relayIdentityPk, relayAuthSigningInput P (c.handshake.session relayRandom),
        sent⟩ ∈ s.signed ∧ transcriptInput LABEL_RELAY_AUTH (c.handshake.session relayRandom)
        ∈ (step P verify s (.relayAuth i frame)).hashed := by
  obtain ⟨sent, relayRandom, rfl, hstate, hverify⟩ := ClientHandshake.onRelayAuth_ok hok
  have hsession : c.handshake.authSession = some (c.handshake.session relayRandom) := by
    rw [ClientHandshake.authSession, hstate]
  refine ⟨sent, relayRandom, rfl, hstate, ?_, ?_⟩
  · have hunforged : (s.clients[i]?.all fun c => c.handshake.authSession.all fun session =>
        s.unforged verify c.handshake.relayIdentityPk (relayAuthSigningInput P session) sent)
        = true := hideal
    rw [hc, all_some, hsession, all_some] at hunforged
    exact mem_signed hunforged hverify
  · rw [step, hc]
    refine mem_append_right _ ?_
    rw [hsession]
    simp

section

variable {before after : List NetEvent} {e : NetEvent}

theorem ideal_at (hideal : Runs.Along (step P verify) (ideal P verify) start (before ++ e :: after) = true) :
    ideal P verify (run P verify before) e = true := by
  rw [Runs.along_append] at hideal
  exact (Bool.and_eq_true_iff.mp (Bool.and_eq_true_iff.mp hideal).2).1

theorem extends_end :
    Extends (step P verify (run P verify before) e) (run P verify (before ++ e :: after)) := by
  have hend : run P verify (before ++ e :: after)
      = Runs.run (step P verify) (step P verify (run P verify before) e) after := Runs.run_append ..
  rw [hend]
  exact extends_run _ after

theorem extends_before : Extends (run P verify before) (run P verify (before ++ e :: after)) :=
  (extends_step _ e).trans extends_end

def Insider (evs : List NetEvent) (key : Bytes) : Prop :=
  ∃ message signature, .insider key message signature ∈ evs

variable {hashed : List Bytes} {key sent : Bytes} {t : Session}
  (hsub : (run P verify before).hashed ⊆ hashed) (hhash : Set.InjOn P.sha512 {x | x ∈ hashed})
  (honest : ¬ Insider before key)

include hsub hhash honest

theorem exists_signs {input : Bytes} (hinput : input ∈ hashed)
    (hsigned : ⟨key, P.sha512 input, sent⟩ ∈ (run P verify before).signed) : ∃ b₁ e₁ b₂, before = b₁ ++ e₁ :: b₂
      ∧ ((∃ t, input = transcriptInput LABEL_CLIENT_AUTH t ∧ ClientSigns P (run P verify b₁) e₁ key t)
        ∨ ∃ t, input = transcriptInput LABEL_RELAY_AUTH t
          ∧ RelaySigns P verify (run P verify b₁) e₁ key t) := by
  obtain ⟨b₁, e₁, b₂, rfl, hmakes⟩ := exists_makes hsigned
  refine ⟨b₁, e₁, b₂, rfl, ?_⟩
  cases hmakes with
  | client t hsigns hmessage hhashed =>
    exact Or.inl ⟨t, hhash hinput (hsub (extends_end.hashed hhashed)) hmessage, hsigns⟩
  | relay t hsigns hmessage hhashed =>
    exact Or.inr ⟨t, hhash hinput (hsub (extends_end.hashed hhashed)) hmessage, hsigns⟩
  | insider message signature he =>
    exact absurd ⟨message, signature, by rw [he]; simp⟩ honest

theorem exists_clientSigns (ht : transcriptInput LABEL_CLIENT_AUTH t ∈ hashed)
    (hsigned : ⟨key, clientAuthSigningInput P t, sent⟩ ∈ (run P verify before).signed) :
    ∃ b₁ e₁ b₂, before = b₁ ++ e₁ :: b₂ ∧ ClientSigns P (run P verify b₁) e₁ key t := by
  obtain ⟨b₁, e₁, b₂, hbefore, ⟨t', heq, hsigns⟩ | ⟨t', heq, -⟩⟩ :=
    exists_signs hsub hhash honest ht hsigned
  · rw [transcriptInput_inj heq]
    exact ⟨b₁, e₁, b₂, hbefore, hsigns⟩
  · exact absurd heq (client_ne_relay t t')

theorem exists_relaySigns (ht : transcriptInput LABEL_RELAY_AUTH t ∈ hashed)
    (hsigned : ⟨key, relayAuthSigningInput P t, sent⟩ ∈ (run P verify before).signed) :
    ∃ b₁ e₁ b₂, before = b₁ ++ e₁ :: b₂ ∧ RelaySigns P verify (run P verify b₁) e₁ key t := by
  obtain ⟨b₁, e₁, b₂, hbefore, ⟨t', heq, -⟩ | ⟨t', heq, hsigns⟩⟩ :=
    exists_signs hsub hhash honest ht hsigned
  · exact absurd heq.symm (client_ne_relay t' t)
  · rw [transcriptInput_inj heq]
    exact ⟨b₁, e₁, b₂, hbefore, hsigns⟩

end

/-! ### Replay -/

def AcceptsClientAuth (P : Primitives) (verify : Verifier) (s : Handshakes) (e : NetEvent) (j : ℕ)
    (frame : Frame) : Prop :=
  ∃ roster signature l, e = .clientAuth j frame roster signature ∧ s.listeners[j]? = some l
    ∧ (l.handshake.onClientAuth P frame roster verify fun _ => signature).2.toBool = true

def AcceptsRelayAuth (P : Primitives) (verify : Verifier) (s : Handshakes) (e : NetEvent) (i : ℕ)
    (frame : Frame) : Prop :=
  ∃ c, e = .relayAuth i frame ∧ s.clients[i]? = some c
    ∧ (c.handshake.onRelayAuth P frame verify).2.toBool = true

section

variable {evs b₁ a₁ b₂ a₂ : List NetEvent} {e₁ e₂ : NetEvent} {i j : ℕ} {frame : Frame}

/-- What an acceptance leaves behind: the signature, its hashed input, and the random of the
handshake. -/
def Leaves (P : Primitives) (s : Handshakes) (label sent : Bytes) (random : Session → Random)
    (randoms : List Random) (k : ℕ) : Prop :=
  ∃ t : Session, ∃ key, ⟨key, P.sha512 (transcriptInput label t), sent⟩ ∈ s.signed
    ∧ transcriptInput label t ∈ s.hashed ∧ randoms[k]? = some (random t)

variable (hideal : Runs.Along (step P verify) (ideal P verify) start evs = true)
  (hhash : Set.InjOn P.sha512 {x | x ∈ (run P verify evs).hashed})
  (hs : Distinct (run P verify evs)) (h₁ : evs = b₁ ++ e₁ :: a₁) (h₂ : evs = b₂ ++ e₂ :: a₂)

include hhash hs

theorem leaves_unique {label sent : Bytes} {random : Session → Random} {randoms : List Random}
    (hrandoms : randoms.Nodup) (hi : Leaves P (run P verify evs) label sent random randoms i)
    (hj : Leaves P (run P verify evs) label sent random randoms j) : i = j := by
  obtain ⟨t₁, key₁, hsigned₁, hhashed₁, hrandom₁⟩ := hi
  obtain ⟨t₂, key₂, hsigned₂, hhashed₂, hrandom₂⟩ := hj
  have hmessage := (Signed.mk.inj (inj_on_of_nodup_map hs.signed hsigned₁ hsigned₂ rfl)).2.1
  have ht := transcriptInput_inj (hhash hhashed₁ hhashed₂ hmessage)
  obtain ⟨hlt, -⟩ := List.getElem?_eq_some_iff.mp hrandom₁
  refine (getElem?_inj hlt hrandoms).mp ?_
  rw [hrandom₁, hrandom₂, ht]

include hideal h₁ h₂

theorem clientAuth_once (haccept₁ : AcceptsClientAuth P verify (run P verify b₁) e₁ i frame)
    (haccept₂ : AcceptsClientAuth P verify (run P verify b₂) e₂ j frame) : i = j := by
  have hleft {b a : List NetEvent} {e : NetEvent} {k : ℕ} (h : evs = b ++ e :: a)
      (haccept : AcceptsClientAuth P verify (run P verify b) e k frame) :
      Leaves P (run P verify evs) LABEL_CLIENT_AUTH frame.signature Session.relayRandom
        ((run P verify evs).listeners.map fun l => l.handshake.relayRandom) k := by
    subst h
    obtain ⟨roster, signature, l, rfl, hl, hok⟩ := haccept
    obtain ⟨result, hresult⟩ := exists_ok hok
    obtain ⟨t, key, sent, rfl, -, hrandom, -, hsigned, hhashed⟩ :=
      signed_of_clientAuth (ideal_at hideal) hl hresult
    obtain ⟨l', hl', hcont⟩ := extends_before.listeners k l hl
    refine ⟨t, key, extends_before.signed hsigned, extends_end.hashed hhashed, ?_⟩
    rw [getElem?_map, hl', map_some, hcont.relayRandom, hrandom]
  exact leaves_unique hhash hs hs.listeners (hleft h₁ haccept₁) (hleft h₂ haccept₂)

theorem relayAuth_once (haccept₁ : AcceptsRelayAuth P verify (run P verify b₁) e₁ i frame)
    (haccept₂ : AcceptsRelayAuth P verify (run P verify b₂) e₂ j frame) : i = j := by
  have hleft {b a : List NetEvent} {e : NetEvent} {k : ℕ} (h : evs = b ++ e :: a)
      (haccept : AcceptsRelayAuth P verify (run P verify b) e k frame) :
      Leaves P (run P verify evs) LABEL_RELAY_AUTH frame.signature Session.clientRandom
        ((run P verify evs).clients.map fun c => c.handshake.clientRandom) k := by
    subst h
    obtain ⟨c, rfl, hc, hok⟩ := haccept
    obtain ⟨sent, relayRandom, rfl, -, hsigned, hhashed⟩ :=
      signed_of_relayAuth (ideal_at hideal) hc hok
    obtain ⟨c', hc', hcont⟩ := extends_before.clients k c hc
    refine ⟨c.handshake.session relayRandom, _, extends_before.signed hsigned, extends_end.hashed hhashed, ?_⟩
    rw [getElem?_map, hc', map_some, hcont.clientRandom]
    rfl
  exact leaves_unique hhash hs hs.clients (hleft h₁ haccept₁) (hleft h₂ haccept₂)

end

/-- **Mutual authentication.**  The holder of the peer's key meant this handshake, with these
randoms.  No message is accepted in two handshakes, and one that failed stays failed. -/
theorem mutual_authentication (P : Primitives) (verify : Verifier) (evs : List NetEvent)
    (hideal : Runs.Along (step P verify) (ideal P verify) start evs = true)
    (hhash : Set.InjOn P.sha512 {x | x ∈ (run P verify evs).hashed}) :
    (∀ before after j frame roster signature l admitted bytes,
      evs = before ++ .clientAuth j frame roster signature :: after →
      (run P verify before).listeners[j]? = some l →
      (l.handshake.onClientAuth P frame roster verify fun _ => signature).2 = .ok (admitted, bytes) →
      ∃ t : Session, ∃ key sent, frame = .clientAuth t.role t.peerId t.clientRandom sent
        ∧ t.relayId = l.handshake.relayId ∧ t.relayRandom = l.handshake.relayRandom
        ∧ RelayHandshake.lookUp roster t.role t.peerId = (key, some admitted)
        ∧ (¬ Insider before key → ∃ b₁ e₁ b₂, before = b₁ ++ e₁ :: b₂
          ∧ ClientSigns P (run P verify b₁) e₁ key t))
      ∧ (∀ before after i frame c, evs = before ++ .relayAuth i frame :: after →
        (run P verify before).clients[i]? = some c →
        (c.handshake.onRelayAuth P frame verify).2.toBool = true →
        ∃ relayRandom, c.handshake.state = .awaitingAuth relayRandom
          ∧ (¬ Insider before c.handshake.relayIdentityPk → ∃ b₁ e₁ b₂, before = b₁ ++ e₁ :: b₂
            ∧ RelaySigns P verify (run P verify b₁) e₁ c.handshake.relayIdentityPk
              (c.handshake.session relayRandom)))
      ∧ (∀ b₁ e₁ a₁ b₂ e₂ a₂ i j frame, evs = b₁ ++ e₁ :: a₁ → evs = b₂ ++ e₂ :: a₂ →
        (AcceptsClientAuth P verify (run P verify b₁) e₁ i frame →
          AcceptsClientAuth P verify (run P verify b₂) e₂ j frame → i = j)
        ∧ (AcceptsRelayAuth P verify (run P verify b₁) e₁ i frame →
          AcceptsRelayAuth P verify (run P verify b₂) e₂ j frame → i = j))
      ∧ ∀ before after, evs = before ++ after →
        (∀ (i : ℕ) (c : Client), (run P verify before).clients[i]? = some c → c.handshake.state = .failed →
          ∃ c', (run P verify evs).clients[i]? = some c' ∧ c'.handshake.isEstablished = false)
        ∧ ∀ (j : ℕ) (l : Listener), (run P verify before).listeners[j]? = some l →
          l.handshake.state = .failed →
          ∃ l', (run P verify evs).listeners[j]? = some l' ∧ l'.handshake.isEstablished = false := by
  have hs : Distinct (run P verify evs) := Runs.along_induction distinct_step distinct_start hideal
  refine ⟨?_, ?_, ?_, ?_⟩
  · intro before after j frame roster signature l admitted bytes hevs hl hok
    subst hevs
    obtain ⟨t, key, sent, hframe, hrelay, hrandom, hlook, hsigned, hhashed⟩ :=
      signed_of_clientAuth (ideal_at hideal) hl hok
    refine ⟨t, key, sent, hframe, hrelay, hrandom, hlook, fun honest => ?_⟩
    exact exists_clientSigns extends_before.hashed hhash honest (extends_end.hashed hhashed) hsigned
  · intro before after i frame c hevs hc hok
    subst hevs
    obtain ⟨sent, relayRandom, -, hstate, hsigned, hhashed⟩ :=
      signed_of_relayAuth (ideal_at hideal) hc hok
    refine ⟨relayRandom, hstate, fun honest => ?_⟩
    exact exists_relaySigns extends_before.hashed hhash honest (extends_end.hashed hhashed) hsigned
  · intro b₁ e₁ a₁ b₂ e₂ a₂ i j frame h₁ h₂
    exact ⟨clientAuth_once hideal hhash hs h₁ h₂, relayAuth_once hideal hhash hs h₁ h₂⟩
  · intro before after hevs
    subst hevs
    have hext : Extends (run P verify before) (run P verify (before ++ after)) := by
      have hend : run P verify (before ++ after)
          = Runs.run (step P verify) (run P verify before) after := Runs.run_append ..
      rw [hend]
      exact extends_run _ after
    constructor
    · intro i c hc hfailed
      obtain ⟨c', hc', hcont⟩ := hext.clients i c hc
      refine ⟨c', hc', ?_⟩
      rw [ClientHandshake.isEstablished, hcont.failed hfailed]
      rfl
    · intro j l hl hfailed
      obtain ⟨l', hl', hcont⟩ := hext.listeners j l hl
      refine ⟨l', hl', ?_⟩
      rw [isEstablished, hcont.failed hfailed]
      rfl

def markOf (key : Bytes) : Bytes := List.replicate SIG_LEN (key.headD 0)

def markVerifier : Verifier := fun key _ signature => signature == markOf key

def exchange : List NetEvent :=
  [.dial [1] .client (fit ID_LEN [9]) (fit ID_LEN [5]) [2] (fit RANDOM_LEN [3]),
    .listen [2] (fit ID_LEN [5]) (fit RANDOM_LEN [4]),
    .relayHello 0 (.relayHello (fit ID_LEN [5]) (fit RANDOM_LEN [4])) (some (markOf [1])),
    .clientAuth 0 (.clientAuth .client (fit ID_LEN [9]) (fit RANDOM_LEN [3]) (markOf [1]))
      ⟨fun _ => some ⟨[1], [7]⟩, fun _ => none, []⟩ (some (markOf [2])),
    .relayAuth 0 (.relayAuth (markOf [2]))]

theorem exchange_authenticated : ∃ b₁ e₁ b₂, exchange.take 4 = b₁ ++ e₁ :: b₂
      ∧ RelaySigns reference markVerifier (run reference markVerifier b₁) e₁ [2]
        ⟨fit ID_LEN [5], fit RANDOM_LEN [4], fit RANDOM_LEN [3], fit ID_LEN [9], .client⟩ := by
  have hhash : ∀ x ∈ (run reference markVerifier exchange).hashed,
      ∀ y ∈ (run reference markVerifier exchange).hashed,
      reference.sha512 x = reference.sha512 y → x = y := by decide +kernel
  have hauth := (mutual_authentication reference markVerifier exchange (by decide +kernel)
    (fun x hx y hy => hhash x hx y hy)).2.1
  obtain ⟨relayRandom, hstate, hsigns⟩ := hauth (exchange.take 4) [] 0 (.relayAuth (markOf [2]))
    ⟨[1], .client, fit ID_LEN [9], fit ID_LEN [5], [2], fit RANDOM_LEN [3],
      .awaitingAuth (fit RANDOM_LEN [4])⟩ rfl (by decide +kernel) (by decide +kernel)
  cases hstate
  refine hsigns ?_
  rintro ⟨message, signature, hmem⟩
  simp [exchange] at hmem

end Handshakes

end Karst.Relay
