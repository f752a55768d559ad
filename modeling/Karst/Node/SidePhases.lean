import Karst.Node.Network
import Karst.Node.OpenProtocol
import Karst.Node.Reception

/-!
# One side of a simultaneous open

What it means for a session to be in a phase of the abstract protocol, and that every entry point
takes it to the phase the protocol says.
-/

namespace Karst.Node

open Crypto Noise OpenProtocol Option Function Except Session TransportSession Phase Exchanges
open List hiding Vector

variable {P : Primitives} {R : Pair P}

namespace Exchanges

variable (E : Exchanges R)

/-- The key side `x` sends under with the keys of one handshake or the other. -/
def sendKey (x : Bool) : Which → Bytes
  | .own => (E.keys x).initiatorToResponder
  | .theirs => (E.keys !x).responderToInitiator

def recvKey (x : Bool) : Which → Bytes
  | .own => (E.keys x).responderToInitiator
  | .theirs => (E.keys !x).initiatorToResponder

theorem recvKey_eq (x : Bool) (w : Which) : E.recvKey x w = E.sendKey (!x) w.flip := by
  cases w <;> simp [recvKey, sendKey, Which.flip]

def Flight (x : Bool) (p : Phase) (f : Option (Handshake P)) : Prop :=
  if p.awaiting then ∃ hs, f = some hs ∧ hs.initiator = E.initiator x ∧ hs.msg1 = E.msg1 x
  else f = none

variable {E} {x : Bool} {p : Phase} {f : Option (Handshake P)}

theorem flight_iff (ha : p.awaiting = true) :
    E.Flight x p f ↔ ∃ hs, f = some hs ∧ hs.initiator = E.initiator x ∧ hs.msg1 = E.msg1 x := by
  simp only [Flight, ha, if_true]

theorem flight_iff_none (ha : p.awaiting = false) : E.Flight x p f ↔ f = none := by
  simp only [Flight, ha, Bool.false_eq_true, if_false]

theorem Flight.retried (h : E.Flight x p f) (now : ℕ) :
    E.Flight x p (f.map fun hs => (hs.retryDue now).1) := by
  cases ha : p.awaiting with
  | true =>
    obtain ⟨hs, rfl, hini, hmsg⟩ := (flight_iff ha).mp h
    obtain ⟨hini', hmsg'⟩ := hs.retryDue_same now
    exact (flight_iff ha).mpr ⟨_, rfl, hini'.symm.trans hini, hmsg'.symm.trans hmsg⟩
  | false =>
    obtain rfl := (flight_iff_none ha).mp h
    exact (flight_iff_none ha).mpr rfl

end Exchanges

def stateOf (ref : Which → Ref) (f : Option (Handshake P)) : Option Layout → State P
  | none =>
    match f with
    | none => .idle
    | some hs => .handshaking hs
  | some l => .established ⟨ref l.current, l.initiated, f, l.pending.map ref, l.previous.map ref⟩

def Session.view (s : Session P) (ref : Which → Ref) (w : Which) : TransportSession :=
  s.arena.cell (ref w)

structure Exchanges.Cells (E : Exchanges R) (x : Bool) (p : Phase) (ref : Which → Ref)
    (a : Arena TransportSession) : Prop where
  allocated : ∀ w, p.uses w = true → ref w < a.next
  apart : ∀ v w, p.uses v = true → p.uses w = true → ref v = ref w → v = w
  ciphers : ∀ w, p.uses w = true → (a.cell (ref w)).sendCipher = E.sendKey x w
    ∧ (a.cell (ref w)).recvCipher = E.recvKey x w

/-- The session of side `x` is in phase `p`, its keys at `ref`. -/
structure InPhase (E : Exchanges R) (x : Bool) (p : Phase) (ref : Which → Ref) (s : Session P) :
    Prop where
  keys : s.keys = R.keys x
  peer : s.peer = ⟨(R.keys !x).kemPk, R.psk⟩
  pskEpoch : s.pskEpoch = R.pskEpoch x
  index : s.index = R.index x
  attempt : p = .idle → s.attempt = 0
  answered : s.answered = if p.hasAnswered then some (E.msg1 !x, E.msg2 !x) else none
  state : ∃ f, E.Flight x p f ∧ s.state = stateOf ref f p.layout
  cells : E.Cells x p ref s.arena

/-- Keys are not let go of, and counters only go up. -/
structure Grows (p p' : Phase) (c c' : Which → TransportSession) : Prop where
  uses : ∀ w, p.uses w = true → p'.uses w = true
  sent : ∀ w, p.uses w = true → (c w).sendCounter ≤ (c' w).sendCounter

/-- Nothing was opened: each replay window is as it was, or fresh. -/
def Unopened (p p' : Phase) (c c' : Which → TransportSession) : Prop :=
  ∀ w, p'.uses w = true → (c' w).window = ReplayWindow.new ∨ p.uses w = true ∧ (c' w).window = (c w).window

/-- A session goes from phase `p` to phase `p'` without opening anything. -/
structure Proceeds (E : Exchanges R) (x : Bool) (p p' : Phase) (ref ref' : Which → Ref)
    (s s' : Session P) : Prop where
  inPhase : InPhase E x p' ref' s'
  grows : Grows p p' (s.view ref) (s'.view ref')
  unopened : Unopened p p' (s.view ref) (s'.view ref')

variable {E : Exchanges R} {x : Bool} {s : Session P} {now : ℕ}

theorem Proceeds.of_arena {p p' : Phase} {ref : Which → Ref}
    {s' : Session P} (h : InPhase E x p' ref s') (harena : s'.arena = s.arena)
    (huses : ∀ w, p'.uses w = p.uses w) : Proceeds E x p p' ref ref s s' := by
  have hview : s'.view ref = s.view ref := by
    funext w
    rw [view, view, harena]
  refine ⟨h, ⟨fun w hw => by rwa [huses], fun w _ => ?_⟩, fun w hw => .inr ⟨by rwa [← huses], ?_⟩⟩
  · rw [hview]
    exact UInt64.le_refl _
  · rw [hview]

/-! ### Cells -/

section

variable {E : Exchanges R} {x : Bool} {p p' : Phase} {ref : Which → Ref} {a : Arena TransportSession}

theorem Exchanges.Cells.of_none (h : p.layout = none) (a : Arena TransportSession) : E.Cells x p ref a := by
  have hnone w (hw : p.uses w = true) : False := by
    simp [uses, h] at hw
  exact ⟨fun w hw => (hnone w hw).elim, fun v _ hv => (hnone v hv).elim, fun w hw => (hnone w hw).elim⟩

theorem Exchanges.Cells.mono (h : E.Cells x p ref a)
    (huses : ∀ w, p'.uses w = true → p.uses w = true) : E.Cells x p' ref a :=
  ⟨fun w hw => h.allocated w (huses w hw), fun v w hv hw => h.apart v w (huses v hv) (huses w hw),
    fun w hw => h.ciphers w (huses w hw)⟩

variable {t : TransportSession}

theorem Exchanges.Cells.write (h : E.Cells x p ref a) {r : Ref}
    (ht : Same (a.cell r) t) : E.Cells x p ref (a.write r t) := by
  refine ⟨h.allocated, h.apart, fun w hw => ?_⟩
  have hsame := (later_write ht).cell (ref w) (h.allocated w hw)
  rw [hsame.sendCipher, hsame.recvCipher]
  exact h.ciphers w hw

variable {w : Which}

theorem update_of_uses (hnew : p.uses w = false) {r : Ref} {v : Which} (hv : p.uses v = true) :
    update ref w r v = ref v := by
  refine update_of_ne ?_ ..
  rintro rfl
  rw [hnew] at hv
  cases hv

theorem Exchanges.Cells.alloc (h : E.Cells x p ref a) (hnew : p.uses w = false)
    (huses : ∀ v, p'.uses v = true → v = w ∨ p.uses v = true)
    (hsend : t.sendCipher = E.sendKey x w) (hrecv : t.recvCipher = E.recvKey x w) :
    E.Cells x p' (update ref w a.next) (a.alloc t) where
  allocated v hv := by
    rcases huses v hv with rfl | hv'
    · rw [update_self]
      exact Nat.lt_succ_self _
    · rw [update_of_uses hnew hv']
      exact Nat.lt_succ_of_lt (h.allocated v hv')
  apart v v' hv hv' heq := by
    rcases huses v hv with rfl | hv
    · rcases huses v' hv' with rfl | hv'
      · rfl
      · rw [update_self, update_of_uses hnew hv'] at heq
        exact absurd heq.symm (Nat.ne_of_lt (h.allocated v' hv'))
    · rcases huses v' hv' with rfl | hv'
      · rw [update_self, update_of_uses hnew hv] at heq
        exact absurd heq (Nat.ne_of_lt (h.allocated v hv))
      · rw [update_of_uses hnew hv, update_of_uses hnew hv'] at heq
        exact h.apart v v' hv hv' heq
  ciphers v hv := by
    rcases huses v hv with rfl | hv'
    · rw [update_self, Arena.alloc_cell_self]
      exact ⟨hsend, hrecv⟩
    · rw [update_of_uses hnew hv', Arena.alloc_cell_lt _ _ (h.allocated v hv')]
      exact h.ciphers v hv'

theorem Proceeds.of_alloc {s s' : Session P} (hs : InPhase E x p ref s)
    (h : InPhase E x p' (update ref w s.arena.next) s') (hnew : p.uses w = false)
    (huses : ∀ v, p'.uses v = true ↔ v = w ∨ p.uses v = true)
    (harena : s'.arena = s.arena.alloc t) (ht : t.window = ReplayWindow.new) :
    Proceeds E x p p' ref (update ref w s.arena.next) s s' := by
  have hold v (hv : p.uses v = true) : s'.view (update ref w s.arena.next) v = s.view ref v := by
    rw [view, view, harena, update_of_uses hnew hv, Arena.alloc_cell_lt _ _ (hs.cells.allocated v hv)]
  refine ⟨h, ⟨fun v hv => (huses v).mpr (.inr hv), fun v hv => ?_⟩, fun v hv => ?_⟩
  · rw [hold v hv]
    exact UInt64.le_refl _
  · rcases (huses v).mp hv with rfl | hv'
    · left
      rw [view, harena, update_self, Arena.alloc_cell_self]
      exact ht
    · exact .inr ⟨hv', by rw [hold v hv']⟩

end

theorem inPhase_session (E : Exchanges R) (x : Bool) (ref : Which → Ref) :
    InPhase E x .idle ref (R.session x) where
  keys := rfl
  peer := rfl
  pskEpoch := rfl
  index := rfl
  attempt _ := rfl
  answered := rfl
  state := ⟨none, rfl, rfl⟩
  cells := .of_none rfl _

namespace InPhase

variable {E : Exchanges R} {x : Bool} {p : Phase} {ref : Which → Ref} {s : Session P}

theorem framed (h : InPhase E x p ref s) (id : UInt32) : InPhase E x p ref { s with reassemblyId := id } :=
  ⟨h.keys, h.peer, h.pskEpoch, h.index, h.attempt, h.answered, h.state, h.cells⟩

theorem inFlight_of_state {f : Option (Handshake P)} {l : Option Layout}
    (h : s.state = stateOf ref f l) : s.inFlight = f := by
  rw [inFlight, h]
  cases l with
  | some l => rfl
  | none => cases f <;> rfl

variable (h : InPhase E x p ref s)
include h

theorem state_of_not_awaiting (ha : p.awaiting = false) : s.state = stateOf ref none p.layout := by
  obtain ⟨f, hf, hstate⟩ := h.state
  obtain rfl := (flight_iff_none ha).mp hf
  exact hstate

theorem state_of_awaiting (ha : p.awaiting = true) : ∃ hs, hs.initiator = E.initiator x ∧ hs.msg1 = E.msg1 x
      ∧ s.state = stateOf ref (some hs) p.layout := by
  obtain ⟨f, hf, hstate⟩ := h.state
  obtain ⟨hs, rfl, hini, hmsg⟩ := (flight_iff ha).mp hf
  exact ⟨hs, hini, hmsg, hstate⟩

omit h

/-! ### Dialling -/

theorem newHandshake (h : InPhase E x .idle ref s) (now : ℕ) :
    ∃ hs : Handshake P, hs.initiator = E.initiator x ∧ hs.msg1 = E.msg1 x
      ∧ s.newHandshake now (R.seed x) = ({ s with attempt := s.attempt + 1 }, some hs) := by
  have hsent := E.sent x
  refine ⟨⟨E.initiator x, E.msg1 x, now, Proto.saturatingAdd now RETRY_INITIAL_MS,
    RETRY_INITIAL_MS⟩, rfl, rfl, ?_⟩
  unfold Session.newHandshake
  simp only [h.keys, h.peer, h.pskEpoch, h.index, h.attempt rfl]
  rw [show (0 + 1 : UInt32) = 1 from rfl, hsent]

theorem connect (h : InPhase E x .idle ref s) (now : ℕ) :
    InPhase E x .dialing ref (s.connect now (R.seed x)).1
      ∧ (s.connect now (R.seed x)).1.initPackets = [.init (E.msg1 x)]
      ∧ (s.connect now (R.seed x)).1.arena = s.arena := by
  obtain ⟨hs, hini, hmsg, hnew⟩ := h.newHandshake now
  have hidle : s.state = .idle := h.state_of_not_awaiting rfl
  have hconnect : (s.connect now (R.seed x)).1 = { s with
      attempt := s.attempt + 1
      state := .handshaking hs
      reassemblyId := deriveReassemblyId P (R.seed x) } := by
    simp only [Session.connect, hidle, Session.startHandshake, hnew, Session.emit_fst]
  rw [hconnect]
  refine ⟨?_, by simp [initPackets, inFlight, hmsg], rfl⟩
  exact {
      keys := h.keys
      peer := h.peer
      pskEpoch := h.pskEpoch
      index := h.index
      attempt := fun hidle => by cases hidle
      answered := h.answered
      state := ⟨some hs, ⟨hs, rfl, hini, hmsg⟩, rfl⟩
      cells := .of_none rfl _ }

theorem connect_other (h : InPhase E x p ref s) (hp : p ≠ .idle) (now : ℕ) (seed : Seed) :
    (s.connect now seed).1 = s ∧ s.isIdle = false := by
  obtain ⟨f, hf, hstate⟩ := h.state
  have hnot : s.state ≠ .idle := by
    cases p <;> simp_all [stateOf, layout, Exchanges.Flight, awaiting]
    obtain ⟨hs, rfl, -⟩ := hf
    simp
  unfold Session.connect Session.isIdle
  cases hs : s.state with
  | idle => exact absurd hs hnot
  | handshaking hs => exact ⟨rfl, rfl⟩
  | established e => exact ⟨rfl, rfl⟩

/-! ### Answering -/

theorem respondTo_repeat {m r : Bytes} (h : s.answered = some (m, r)) (rand : ResponderRandomness)
    (now : ℕ) : (s.respondTo m rand now).1 = { s with
      reassemblyId := deriveReassemblyId P (seedFromResponderRandomness P rand) } := by
  unfold respondTo repeatResponse
  simp only [h, ne_eq, not_true_eq_false, if_false, emit_fst]

theorem respondTo_fresh {m msg2 : Bytes} {u : Unconfirmed TransportKeys} (h : s.answered = none)
    {rand : ResponderRandomness} (hresp : respond s.keys m s.lookupPeer rand s.index = .ok (msg2, u))
    (now : ℕ) : (s.respondTo m rand now).1
      = (s.adoptResponder m u.confirm msg2 now (seedFromResponderRandomness P rand)).1 := by
  unfold respondTo repeatResponse
  simp only [h, hresp]

include h

theorem respond_other : respond s.keys (E.msg1 !x) s.lookupPeer (R.rand x) s.index
      = .ok (E.msg2 !x, ⟨E.keys !x⟩) := by
  have hlookup : s.lookupPeer = (R.session x).lookupPeer := by
    funext hint epoch
    simp only [lookupPeer, h.peer]
    rfl
  have hanswered := E.answered (!x)
  rw [Bool.not_not] at hanswered
  rw [h.keys, h.index, hlookup]
  exact hanswered

theorem adoptResponder (hp : p.hasAnswered = false) (now : ℕ)
    (seed : Seed) : InPhase E x p.answer (update ref .theirs s.arena.next)
      (s.adoptResponder (E.msg1 !x) (E.keys !x) (E.msg2 !x) now seed).1 := by
  rw [adoptResponder_fst]
  exact {
      keys := h.keys
      peer := h.peer
      pskEpoch := h.pskEpoch
      index := h.index
      attempt := fun hidle => by cases p <;> cases hidle
      answered := by simp
      state := by
        obtain ⟨f, hf, hstate⟩ := h.state
        refine ⟨f, by simpa [Exchanges.Flight] using hf, ?_⟩
        simp only [hstate]
        cases p with
        | idle =>
          obtain rfl := (flight_iff_none rfl).mp hf
          rfl
        | dialing =>
          obtain ⟨hs, rfl, -⟩ := (flight_iff rfl).mp hf
          rfl
        | finished => rfl
        | answered | crossed | conceded | holding | keeping | promoted => cases hp
      cells := h.cells.alloc (by rw [p.uses_theirs, hp]) (fun v => p.answer_uses.mp) rfl rfl }

theorem respondTo (now : ℕ) {s' : Session P} (hs' : (s.respondTo (E.msg1 !x) (R.rand x) now).1 = s') :
    (∃ ref', Proceeds E x p p.answer ref ref' s s')
      ∧ s'.responsePackets (E.msg1 !x) = [.response (E.msg2 !x)] := by
  have hpackets : ∀ {q : Phase} {ref' : Which → Ref}, InPhase E x q ref' s' →
      q.hasAnswered = true → s'.responsePackets (E.msg1 !x) = [.response (E.msg2 !x)] := by
    intro q ref' hin hq
    simp [responsePackets, hin.answered, hq]
  cases hp : p.hasAnswered with
  | true =>
    have hsame : p.answer = p := by cases p <;> first | rfl | cases hp
    have hans : s.answered = some (E.msg1 !x, E.msg2 !x) := by rw [h.answered, if_pos hp]
    rw [respondTo_repeat hans] at hs'
    subst hs'
    rw [hsame]
    exact ⟨⟨ref, .of_arena (h.framed _) rfl fun _ => rfl⟩, hpackets (h.framed _) hp⟩
  | false =>
    have hans : s.answered = none := by rw [h.answered, if_neg (by simp [hp])]
    have hin := h.adoptResponder hp now (seedFromResponderRandomness P (R.rand x))
    rw [respondTo_fresh hans h.respond_other] at hs'
    have harena := adoptResponder_arena s (E.msg1 !x) (E.keys !x) (E.msg2 !x) now
      (seedFromResponderRandomness P (R.rand x))
    replace hin : InPhase E x p.answer (update ref .theirs s.arena.next) s' := hs' ▸ hin
    replace harena : s'.arena = _ := (congrArg arena hs').symm.trans harena
    refine ⟨⟨_, .of_alloc h hin ?_ (fun v => p.answer_uses) harena rfl⟩, hpackets hin p.answer_hasAnswered⟩
    rw [p.uses_theirs, hp]

/-! ### Finishing -/

theorem winsTiebreak (hdistinct : P.toBytes (R.keys false).kemPk ≠ P.toBytes (R.keys true).kemPk) :
    s.winsSimultaneousOpenTiebreak = (x == R.winner) := by
  rw [winsSimultaneousOpenTiebreak, h.keys, h.peer, Pair.winner]
  cases x with
  | true => simp
  | false =>
    by_cases hlt : P.toBytes (R.keys false).kemPk < P.toBytes (R.keys true).kemPk
    · simp [hlt, List.lt_asymm hlt]
    · by_cases hgt : P.toBytes (R.keys true).kemPk < P.toBytes (R.keys false).kemPk
      · simp [hlt, hgt]
      · exact absurd (List.le_antisymm (List.not_lt.mp hgt) (List.not_lt.mp hlt)) hdistinct

theorem install (ha : p.awaiting = true) (now : ℕ) :
    InPhase E x (p.finish true) (update ref .own s.arena.next) (s.install (E.keys x) now) where
  keys := h.keys
  peer := h.peer
  pskEpoch := h.pskEpoch
  index := h.index
  attempt hidle := by cases p <;> cases hidle; cases ha
  answered := by
    rw [p.finish_hasAnswered]
    exact h.answered
  state := by
    obtain ⟨hs, -, -, hstate⟩ := h.state_of_awaiting ha
    refine ⟨none, by simp [Exchanges.Flight], ?_⟩
    cases p with
    | dialing =>
      simp only [install, hstate, stateOf, layout, finish, update_self, map_none]
    | crossed =>
      simp only [install, hstate, stateOf, layout, finish, if_true, update_self, map_none, map_some]
      rfl
    | idle | answered | conceded | finished | holding | keeping | promoted => cases ha
  cells := h.cells.alloc (p.not_uses_own ha) (fun v => (p.finish_uses ha).mp) rfl rfl

omit h

theorem dropRekey (h : InPhase E x .crossed ref s) : InPhase E x .conceded ref s.dropRekey := by
  obtain ⟨hs, -, -, hstate⟩ := h.state_of_awaiting rfl
  have hdrop : s.dropRekey = { s with state := stateOf ref none conceded.layout } := by
    simp only [Session.dropRekey, hstate, stateOf, layout]
  rw [hdrop]
  exact ⟨h.keys, h.peer, h.pskEpoch, h.index, (fun hidle => by cases hidle), h.answered,
    ⟨none, rfl, rfl⟩, h.cells.mono fun w hw => by cases w <;> exact hw⟩

include h

theorem deliver_response (now : ℕ) : (s.deliver (E.msg2 x) now).1 = if p.awaiting then
        if p = .crossed ∧ s.winsSimultaneousOpenTiebreak = false then s.dropRekey
        else s.install (E.keys x) now
      else s := by
  have hdeliver : s.deliver (E.msg2 x) now = s.handleResponse (E.msg2 x) now := by
    simp only [Session.deliver, E.response_type]
  rw [hdeliver, Session.handleResponse]
  by_cases ha : p.awaiting = true
  · obtain ⟨hs, hini, -, hstate⟩ := h.state_of_awaiting ha
    have hcrossed : s.crossed = decide (p = .crossed) := by
      rw [Session.crossed, hstate]
      cases p <;> first | rfl | cases ha
    simp only [inFlight_of_state hstate, hini, E.finished, hcrossed, ha, if_true]
    split <;> split <;> simp_all
  · have hnone := inFlight_of_state (h.state_of_not_awaiting (by simpa using ha))
    simp only [hnone, ha, if_false, Bool.false_eq_true]

theorem response (hdistinct : P.toBytes (R.keys false).kemPk ≠ P.toBytes (R.keys true).kemPk) (now : ℕ) :
    ∃ ref', Proceeds E x p (p.finish (x == R.winner)) ref ref' s (s.deliver (E.msg2 x) now).1 := by
  rw [h.deliver_response, h.winsTiebreak hdistinct]
  by_cases ha : p.awaiting = true
  · by_cases hlose : p = .crossed ∧ (x == R.winner) = false
    · obtain ⟨rfl, hw⟩ := hlose
      rw [if_pos ha, if_pos ⟨rfl, hw⟩, hw]
      refine ⟨ref, .of_arena h.dropRekey ?_ fun w => by cases w <;> rfl⟩
      unfold Session.dropRekey
      split <;> rfl
    · have hfinish : p.finish (x == R.winner) = p.finish true := by
        cases p <;> simp_all [finish]
      rw [if_pos ha, if_neg hlose, hfinish]
      exact ⟨_, .of_alloc h (h.install ha now) (p.not_uses_own ha) (fun v => p.finish_uses ha) rfl rfl⟩
  · have hfinish : p.finish (x == R.winner) = p := by
      cases p <;> simp_all [finish, awaiting]
    rw [if_neg ha, hfinish]
    exact ⟨ref, .of_arena h rfl fun _ => rfl⟩

end InPhase

/-! ### Timers -/

/-- The state once the retry timer was looked at. -/
def State.retried (now : ℕ) : State P → State P
  | .idle => .idle
  | .handshaking hs => .handshaking (hs.retryDue now).1
  | .established e => .established { e with rekey := e.rekey.map fun hs => (hs.retryDue now).1 }

theorem State.retried_stateOf (now : ℕ) (ref : Which → Ref) (f : Option (Handshake P)) (l : Option Layout) :
    (stateOf ref f l).retried now = stateOf ref (f.map fun hs => (hs.retryDue now).1) l := by
  cases l with
  | some l => rfl
  | none => cases f <;> rfl

theorem Session.unexpired_eq_self {slot : Option Ref}
    (h : slot.all (fun r => !(s.arena.cell r).expired now) = true) : s.unexpired now slot = slot := by
  cases slot with
  | none => rfl
  | some r => exact filter_some_pos h

theorem Session.poll_timely (h : s.timely now = true) (hr : s.redials now = false) (seed : Seed) :
    ∃ id, (s.poll now seed).1 = { s with state := s.state.retried now, reassemblyId := id } := by
  unfold timely at h
  unfold redials at hr
  unfold poll
  cases hstate : s.state with
  | idle => exact ⟨s.reassemblyId, by simp [State.retried, ← hstate]⟩
  | handshaking hs =>
    have hlive : hs.abandoned now = false := by simpa [hstate] using h
    simp only [pollHandshaking, hlive, Bool.false_eq_true, if_false]
    split
    · exact ⟨_, emit_fst ..⟩
    · exact ⟨_, rfl⟩
  | established e =>
    simp only [hstate, Bool.and_eq_true, Bool.not_eq_true'] at h
    obtain ⟨⟨⟨hcur, hpend⟩, hprev⟩, hrekey⟩ := h
    simp only [pollEstablished, hcur, Bool.false_eq_true, if_false,
      unexpired_eq_self hpend, unexpired_eq_self hprev]
    cases hflight : e.rekey with
    | some hs =>
      have hlive : hs.abandoned now = false := by simpa [hflight] using hrekey
      simp only [pollRekey, hlive, Bool.false_eq_true, if_false, State.retried, hflight]
      split
      · exact ⟨_, emit_fst ..⟩
      · exact ⟨_, rfl⟩
    | none =>
      have hdue : (e.initiated && (s.arena.cell e.session).needsRekey now) = false := by
        simpa [hstate, hflight] using hr
      simp only [pollIdleRekey, hdue, Bool.false_eq_true, if_false, State.retried, hflight]
      exact ⟨s.reassemblyId, rfl⟩

namespace InPhase

variable {E : Exchanges R} {x : Bool} {p : Phase} {ref : Which → Ref} {s : Session P}

theorem poll (h : InPhase E x p ref s) {now : ℕ} (ht : s.timely now = true)
    (hr : s.redials now = false) (seed : Seed) : Proceeds E x p p ref ref s (s.poll now seed).1
      ∧ (s.resentPackets now = [] ∨ p.awaiting = true ∧ s.resentPackets now = [.init (E.msg1 x)]) := by
  obtain ⟨id, hpoll⟩ := poll_timely ht hr seed
  obtain ⟨f, hf, hstate⟩ := h.state
  have hresent : s.resentPackets now = [] ∨ p.awaiting = true ∧ s.resentPackets now = [.init (E.msg1 x)] := by
    rw [resentPackets, inFlight_of_state hstate]
    cases ha : p.awaiting with
    | true =>
      obtain ⟨hs, rfl, -, hmsg⟩ := (flight_iff ha).mp hf
      by_cases hdue : (hs.retryDue now).2 = true
      · exact .inr ⟨rfl, by simp [hdue, hmsg]⟩
      · exact .inl (by simp [hdue])
    | false =>
      obtain rfl := (flight_iff_none ha).mp hf
      exact .inl rfl
  refine ⟨.of_arena ?_ (by rw [hpoll]) fun _ => rfl, hresent⟩
  rw [hpoll, hstate, State.retried_stateOf]
  exact ⟨h.keys, h.peer, h.pskEpoch, h.index, h.attempt, h.answered, ⟨_, hf.retried now, rfl⟩, h.cells⟩

end InPhase

/-! ### Transport messages -/

/-- What side `x` seals under the keys `w` opens under these and not under the others it may have. -/
def Exchanges.Sealed (E : Exchanges R) (x : Bool) (w : Which) (m : Bytes) (c : UInt64) : Prop :=
  ∃ f pt, TransportSession.Frame.parse m = .ok f ∧ f.counter = c
    ∧ f.decrypt P (E.sendKey x w) = some pt ∧ f.decrypt P (E.sendKey x w.flip) = none

/-- The keys of one handshake open nothing of the other. -/
def Exchanges.Separate (E : Exchanges R) : Prop :=
  ∀ x w, P.Separates (E.sendKey x w) (E.sendKey x w.flip)

theorem Exchanges.sealed_of_sealData (hP : P.Correct) (hE : E.Separate)
    {w : Which} {t : TransportSession} (ht : t.sendCipher = E.sendKey x w) {payload m : Bytes}
    (h : (t.sealData P payload now).2 = .ok m) : E.Sealed x w m t.sendCounter := by
  obtain ⟨f, hf, hcounter, hdec⟩ := decrypt_sealed hP h
  refine ⟨f, _, hf, hcounter, ht ▸ hdec, ?_⟩
  exact decrypt_separated h (by rw [ht]; exact hE x w) hf

/-- The cells once one of them has opened a message with counter `c`. -/
def recorded (a : Arena TransportSession) (r : Ref) (c : UInt64) : Arena TransportSession :=
  a.write r { a.cell r with window := ((a.cell r).window.accept c).2 }

theorem Exchanges.Cells.view_write {p : Phase} {ref : Which → Ref}
    {s' : Session P} (h : E.Cells x p ref s.arena) {v : Which} (hv : p.uses v = true)
    {t : TransportSession} (hs' : s'.arena = s.arena.write (ref v) t) {w : Which}
    (hw : p.uses w = true) : s'.view ref w = if w = v then t else s.view ref w := by
  rw [view, hs']
  split
  next heq => rw [heq, Arena.write_cell_self]
  next hne =>
    exact Arena.write_cell_ne _ _ fun heq => hne (h.apart w v hw hv heq)

theorem Session.send_fst {e : Established P} (h : s.state = .established e)
    (payload : Bytes) (now : ℕ) : ∃ id, (s.send payload now).1 = { s with
      arena := s.arena.write e.session ((s.arena.cell e.session).sealData P payload now).1
      reassemblyId := id } := by
  simp only [send, h]
  split
  · exact ⟨_, rfl⟩
  · exact ⟨_, rfl⟩

namespace InPhase

variable {E : Exchanges R} {x : Bool} {p : Phase} {ref : Which → Ref} {s : Session P}

variable (h : InPhase E x p ref s)
include h

theorem state_of_layout {l : Layout} (hl : p.layout = some l) :
    ∃ f, s.state = .established ⟨ref l.current, l.initiated, f, l.pending.map ref, l.previous.map ref⟩ := by
  obtain ⟨f, -, hstate⟩ := h.state
  rw [hl] at hstate
  exact ⟨f, hstate⟩

theorem state_of_no_layout (hl : p.layout = none) : s.inbound = none ∧ ∀ e, s.state ≠ .established e := by
  obtain ⟨f, -, hstate⟩ := h.state
  rw [inbound, hstate, hl]
  cases f <;> exact ⟨rfl, fun e he => by cases he⟩

theorem write {r : Ref} {t : TransportSession} (ht : Same (s.arena.cell r) t) (id : UInt32) :
    InPhase E x p ref { s with arena := s.arena.write r t, reassemblyId := id } :=
  ⟨h.keys, h.peer, h.pskEpoch, h.index, h.attempt, h.answered, h.state, h.cells.write ht⟩

variable {now : ℕ}

theorem send (hseal : s.canSeal now = true) (payload : Bytes)
    {s' : Session P} (hs' : (s.send payload now).1 = s') : Proceeds E x p p ref ref s s'
      ∧ ∀ l, p.layout = some l → (s'.view ref l.current).sendCounter.toNat
        = (s.view ref l.current).sendCounter.toNat + 1 := by
  cases hl : p.layout with
  | none =>
    have hnot := (h.state_of_no_layout hl).2
    have hsame : (s.send payload now).1 = s := by
      unfold Session.send
      split
      next e he => exact absurd he (hnot e)
      next => rfl
    rw [← hs', hsame]
    exact ⟨.of_arena h rfl fun _ => rfl, nofun⟩
  | some l =>
    obtain ⟨f, hstate⟩ := h.state_of_layout hl
    obtain ⟨id, hsend⟩ := send_fst hstate payload now
    have huses := uses_current hl
    simp only [canSeal, hstate, Bool.and_eq_true, Bool.not_eq_true', decide_eq_true_eq] at hseal
    rw [hs'] at hsend
    have harena := congrArg arena hsend
    rw [sealData_fst, hseal.1] at harena
    have hview := fun w hw => h.cells.view_write (w := w) huses harena hw
    have hcounter : (s'.view ref l.current).sendCounter.toNat
        = (s.view ref l.current).sendCounter.toNat + 1 := by
      rw [hview _ huses, if_pos rfl]
      have hne : (s.arena.cell (ref l.current)).sendCounter.toNat ≠ 0xFFFFFFFFFFFFFFFF :=
        fun heq => hseal.2 (UInt64.toNat_inj.mp heq)
      have hlt := (s.arena.cell (ref l.current)).sendCounter.toNat_lt
      show ((s.arena.cell (ref l.current)).sendCounter + 1).toNat = _
      rw [UInt64.toNat_add, Nat.mod_eq_of_lt]
      · rfl
      · show _ + 1 < 2 ^ 64
        omega
    refine ⟨⟨?_, ⟨fun w hw => hw, fun w hw => ?_⟩, fun w hw => .inr ⟨hw, ?_⟩⟩, ?_⟩
    · rw [hsend]
      exact h.write (sealData_same payload now) id
    · by_cases hwl : w = l.current
      · subst hwl
        rw [UInt64.le_iff_toNat_le, hcounter]
        exact Nat.le_succ _
      · rw [hview w hw, if_neg hwl]
        exact UInt64.le_refl _
    · rw [hview w hw]
      split
      next heq => rw [heq]; rfl
      next => rfl
    · intro l' hl'
      obtain rfl := some.inj hl'
      exact hcounter

theorem layout_of_established {e : Established P} (he : s.state = .established e) :
    ∃ l, p.layout = some l ∧ e.session = ref l.current ∧ e.initiated = l.initiated := by
  cases hl : p.layout with
  | none => exact absurd he ((h.state_of_no_layout hl).2 e)
  | some l =>
    obtain ⟨f, hstate⟩ := h.state_of_layout hl
    obtain rfl := State.established.inj (hstate.symm.trans he)
    exact ⟨l, rfl, rfl, rfl⟩

theorem dataPackets (hP : P.Correct) (hE : E.Separate) {payload : Bytes}
    {pkt : Packet} (hpkt : pkt ∈ s.dataPackets payload now) : ∃ l m, p.layout = some l ∧ pkt = .data m
      ∧ E.Sealed x l.current m (s.view ref l.current).sendCounter := by
  unfold Session.dataPackets at hpkt
  split at hpkt
  next e _ he _ =>
    obtain ⟨l, hl, hcurrent, -⟩ := h.layout_of_established he
    rw [hcurrent] at hpkt
    cases hsealed : ((s.arena.cell (ref l.current)).sealData P payload now).2 with
    | error err => simp [hsealed, Except.toOption] at hpkt
    | ok m =>
      obtain rfl : pkt = .data m := by simpa [hsealed, Except.toOption] using hpkt
      have hcipher := (h.cells.ciphers _ (uses_current hl)).1
      exact ⟨l, m, hl, rfl, sealed_of_sealData hP hE hcipher hsealed⟩
  next => cases hpkt

theorem openData_sealed {w : Which} {m : Bytes} {c : UInt64}
    (hm : E.Sealed (!x) w m c) {v : Which} (hv : p.uses v = true) {pt : Bytes}
    (hok : ((s.arena.cell (ref v)).openData P m now).2 = .ok pt) :
    v = w.flip ∧ s.arena.write (ref v) ((s.arena.cell (ref v)).openData P m now).1
      = recorded s.arena (ref v) c := by
  obtain ⟨f, q, hf, rfl, hdec, hnone⟩ := hm
  refine ⟨?_, congrArg (s.arena.write (ref v)) (openData_ok_fst hok hf)⟩
  obtain ⟨-, f', hf', hdec', -⟩ := openData_eq_ok.mp hok
  obtain rfl : f = f' := ok.inj (hf.symm.trans hf')
  rw [(h.cells.ciphers v hv).2, E.recvKey_eq] at hdec'
  by_contra hne
  have hflip : v.flip = w.flip := by cases v <;> cases w <;> simp_all [Which.flip]
  rw [hflip, hnone] at hdec'
  cases hdec'

omit h

theorem promoted (h : InPhase E x .holding ref s) : InPhase E x .promoted ref
      { s with state := .established ⟨ref .theirs, false, none, none, some (ref .own)⟩ } :=
  ⟨h.keys, h.peer, h.pskEpoch, h.index, nofun, h.answered, ⟨none, rfl, rfl⟩,
    h.cells.mono fun w hw => by cases w <;> exact hw⟩

theorem data (h : InPhase E x p ref s) (ht : s.timely now = true) {w : Which} {m : Bytes}
    {c : UInt64} (hm : E.Sealed (!x) w m c) {out : Session P × List Action}
    (hout : s.deliver m now = out) : (out.1 = s ∧ out.2.countP Action.isDeliver = 0)
      ∨ (p.uses w.flip = true ∧ InPhase E x (p.receive w) ref out.1
        ∧ out.1.arena = recorded s.arena (ref w.flip) c ∧ out.2.countP Action.isDeliver = 1) := by
  obtain ⟨fr, q, hparse, -⟩ := id hm
  have hdeliver : s.deliver m now = s.handleTransport m now := by
    simp only [deliver, Frame.head_of_parse hparse]
  rw [hdeliver, handleTransport] at hout
  cases hl : p.layout with
  | none =>
    rw [(h.state_of_no_layout hl).1] at hout
    subst hout
    exact .inl ⟨rfl, rfl⟩
  | some l =>
    obtain ⟨f, hstate⟩ := h.state_of_layout hl
    have hinb : s.inbound = some ⟨ref l.current, l.pending.map ref, l.previous.map ref⟩ := by
      rw [inbound, hstate]
    have hlive : (s.arena.cell (ref l.current)).expired now = false := by
      simp only [timely, hstate, Bool.and_eq_true, Bool.not_eq_true'] at ht
      exact ht.1.1.1
    have hwrite : ∀ v, InPhase E x p ref { s with
        arena := s.arena.write (ref v) ((s.arena.cell (ref v)).openData P m now).1 } :=
      fun v => h.write (openData_same m now) s.reassemblyId
    simp only [hinb] at hout
    have hspec := Inbound.openWith_spec (P := P)
      ⟨ref l.current, l.pending.map ref, l.previous.map ref⟩ s.arena m now
    generalize Inbound.openWith P _ s.arena m now = opened at hspec hout
    cases hspec with
    | @current pt hok =>
      right
      have huses := uses_current hl
      obtain ⟨hv, harena⟩ := h.openData_sealed hm huses hok
      rw [receive_of_not_pending hl (pending_ne hl (.inl hv)), ← hv]
      obtain rfl : out = ({ s with arena := _ }, [.deliver pt]) := hout.symm
      exact ⟨huses, hwrite _, harena, rfl⟩
    | @previous e r pt _ hr hok =>
      right
      obtain ⟨v, hprev, rfl⟩ := map_eq_some_iff.mp hr
      have huses := (uses_iff hl).mpr (.inr (.inr hprev))
      obtain ⟨hv, harena⟩ := h.openData_sealed hm huses hok
      rw [receive_of_not_pending hl (pending_ne hl (.inr (hv ▸ hprev))), ← hv]
      obtain rfl : out = ({ s with arena := _ }, [.deliver pt]) := hout.symm
      exact ⟨huses, hwrite _, harena, rfl⟩
    | @pending e r pt _ _ hr hok =>
      right
      obtain ⟨v, hpend, rfl⟩ := map_eq_some_iff.mp hr
      have huses := (uses_iff hl).mpr (.inr (.inl hpend))
      obtain ⟨hv, harena⟩ := h.openData_sealed hm huses hok
      obtain ⟨rfl, rfl⟩ := holding_of_pending hl hpend
      obtain rfl : w = .own := by
        cases w with
        | own => rfl
        | theirs => cases hv
      obtain rfl := some.inj hl
      obtain rfl : out = (promote { s with arena := _ } _, [.deliver pt]) := hout.symm
      have hne : ref .own ≠ ref .theirs := fun heq => by
        cases h.cells.apart _ _ (uses_current rfl) huses heq
      have hpromote := promote_inbound (s := { s with
        arena := s.arena.write (ref .theirs) ((s.arena.cell (ref .theirs)).openData P m now).1 })
        hstate rfl hr hne
      exact ⟨huses, hpromote ▸ (hwrite .theirs).promoted, hpromote ▸ harena, rfl⟩
    | @refused e hcur _ _ =>
      left
      have he : e ≠ .expired := by
        rintro rfl
        rw [expired_of_openData hcur] at hlive
        cases hlive
      have hsame : out = (s, []) := by
        cases e <;> first | exact hout.symm | exact absurd rfl he
      rw [hsame]
      exact ⟨rfl, rfl⟩

end InPhase

end Karst.Node
