import Karst.Node.OpenSimulation

/-!
# Simultaneous open converges

Two nodes dial each other over a network that reorders, delays and duplicates.  Whatever the order
of events, once the handshake messages are out of the way each side can open what the other sends;
and once each has since heard from the other, both send under the keys of one handshake.
-/

namespace Karst.Node

open Crypto Noise OpenProtocol Runs Option Function

variable {P : Primitives}

/-- The cryptography of a pair, idealised: what one handshake's keys seal does not open under the
other's. -/
structure Pair.Ideal (R : Pair P) : Prop where
  correct : P.Correct
  paired : ∀ x, (R.keys x).Paired
  distinct : (R.keys false).kemPk ≠ (R.keys true).kemPk
  separate : ∀ x k k', R.handshakeKeys x = some k → R.handshakeKeys (!x) = some k' →
    P.Separates k.initiatorToResponder k'.responderToInitiator
      ∧ P.Separates k'.responderToInitiator k.initiatorToResponder

namespace Session

def isEstablished (s : Session P) : Bool :=
  match s.state with
  | .established _ => true
  | _ => false

theorem isEstablished_iff {s : Session P} : s.isEstablished = true ↔ ∃ e, s.state = .established e := by
  unfold isEstablished
  split
  next e he => exact ⟨fun _ => ⟨e, he⟩, fun _ => rfl⟩
  next hne => exact ⟨nofun, fun ⟨e, he⟩ => absurd he (hne e)⟩

/-- A message the current keys of a session seal from now on. -/
def Seals (s : Session P) (m : Bytes) : Prop :=
  ∃ e c payload now, s.state = .established e ∧ (s.arena.cell e.session).sendCounter ≤ c
    ∧ ({ s.arena.cell e.session with sendCounter := c }.sealData P payload now).2 = .ok m

def keyed (s : Session P) (keys : TransportKeys) (role : Role) : Bool :=
  match s.state with
  | .established e =>
    let t := s.arena.cell e.session
    let fresh := TransportSession.new keys role 0 0
    e.initiated == decide (role = .initiator) && t.sendCipher == fresh.sendCipher
      && t.recvCipher == fresh.recvCipher
  | _ => false

end Session

namespace Net

def after (R : Pair P) (evs : List Event) : Net P := run (step R) R.start evs

theorem after_append (R : Pair P) (evs evs' : List Event) :
    after R (evs ++ evs') = run (step R) (after R evs) evs' := run_append ..

/-- The current sessions of both sides come from one handshake: whoever dialled it has the
initiator's keys, the other side the responder's. -/
def sameHandshake (R : Pair P) (n : Net P) : Bool :=
  [true, false].any fun x => (R.handshakeKeys x).any fun keys =>
    (n.node x).keyed keys .initiator && (n.node !x).keyed keys .responder

end Net

variable {R : Pair P} {E : Exchanges R}

theorem Pair.Ideal.separate_exchanges (hR : R.Ideal) (E : Exchanges R) : E.Separate := by
  intro x w
  have hsep := hR.separate x _ _ (E.handshakeKeys x) (E.handshakeKeys !x)
  cases w with
  | own => exact hsep.1
  | theirs => exact hsep.2

theorem Pair.Ideal.distinct_bytes (hR : R.Ideal) :
    P.toBytes (R.keys false).kemPk ≠ P.toBytes (R.keys true).kemPk :=
  fun heq => hR.distinct (hR.correct.toBytes_injective heq)

/-! ### Every run -/

/-- The network is in a state the abstract protocol can reach. -/
def Reached (E : Exchanges R) (n : Net P) : Prop :=
  ∃ o ref, o.Inv R.winner ∧ Simulates E (fun _ _ => True) n o ref

theorem reached_after (hR : R.Ideal) (E : Exchanges R) {evs : List Net.Event}
    (hevs : Along (Net.step R) Net.permitted R.start evs = true) : Reached E (Net.after R evs) := by
  refine along_induction ?_ ?_ hevs
  · rintro n ev hok ⟨o, ref, hinv, hsim⟩
    obtain ⟨o', ref', hout, hsim'⟩ := hsim.step hR.correct (hR.separate_exchanges E)
      hR.distinct_bytes (fun _ _ _ => trivial) hok
    refine ⟨o', ref', ?_, hsim'⟩
    rcases hout.stays_or_moves with rfl | hmove
    · exact hinv
    · exact hmove.keeps hinv
  · exact ⟨_, fun _ _ => 0, Opening.start_inv _, Simulates.start E _ _⟩

section

variable {D : Bool → Which → Prop} {n : Net P} {o : Opening} {ref : Bool → Which → Ref}

variable {x : Bool} {p : Phase} {s : Session P}

theorem Session.expired_of_timely {now : ℕ} (ht : s.timely now = true) {r : Ref}
    (hr : s.Holds r) : (s.arena.cell r).expired now = false := by
  obtain ⟨inb, hinb, hslot⟩ := hr
  obtain ⟨e, he, rfl⟩ := Session.inbound_eq_some hinb
  simp only [Session.timely, he, Bool.and_eq_true, Bool.not_eq_true', all_eq_true] at ht
  obtain ⟨⟨⟨hcur, hpend⟩, hprev⟩, -⟩ := ht
  rcases hslot with rfl | hslot | hslot
  · exact hcur
  · exact hpend r hslot
  · exact hprev r hslot

theorem Simulates.settled (h : Simulates E D n o ref) (hquiet : ∀ x, ∀ pkt ∈ n.inbox x, pkt.isData = true)
    (hlive : ∀ x, ∃ e, (n.node x).state = .established e) : o.Settled where
  init x := by
    by_contra hflag
    have hmem := (h.init_iff (!x) (E.msg1 x)).mpr (by simpa using hflag)
    cases hquiet _ _ hmem
  response x := by
    by_contra hflag
    have hmem := (h.response_iff x (E.msg2 x)).mpr ⟨rfl, by simpa using hflag⟩
    cases hquiet _ _ hmem
  live x := by
    obtain ⟨e, he⟩ := hlive x
    obtain ⟨l, hl, -⟩ := (h.side x).layout_of_established he
    simp [hl]

/-- **Each side can open what the other sends.** -/
theorem Simulates.receives (h : Simulates E D n o ref) (hinv : o.Inv R.winner) (hs : o.Settled)
    (hP : P.Correct) {m : Bytes} (hm : (n.node !x).Seals m) {now : ℕ}
    (ht : (n.node x).timely now = true) : (n.node x).receives m now = true := by
  obtain ⟨e', c, payload, now', he', hc, hseal⟩ := hm
  obtain ⟨l', hl', hcur, -⟩ := (h.side !x).layout_of_established he'
  have huses : (o.phase x).uses l'.current.flip = true :=
    (hs.side hinv x).settled_uses (hs.other hinv x) (hs.live x) hl'
  obtain ⟨l, hl⟩ := isSome_iff_exists.mp (hs.live x)
  obtain ⟨f, hstate⟩ := (h.side x).state_of_layout hl
  have hholds : (n.node x).Holds (ref x l'.current.flip) := by
    rw [Session.holds_of_established hstate]
    rcases (Phase.uses_iff hl).mp huses with hslot | hslot | hslot
    · exact .inl (by rw [hslot])
    · exact .inr (.inl (by simp [hslot]))
    · exact .inr (.inr (by simp [hslot]))
  obtain ⟨fr, hparse, hcounter, hdec⟩ := TransportSession.decrypt_sealed hP hseal
  refine ((n.node x).receives_iff m now).mpr ⟨_, hholds, TransportSession.padded payload,
    TransportSession.openData_eq_ok.mpr ⟨Session.expired_of_timely ht hholds, fr, hparse, ?_, ?_⟩⟩
  · -- the key one side receives under is the one the other sends under
    have hkey : ((n.node x).arena.cell (ref x l'.current.flip)).recvCipher
        = ((n.node !x).arena.cell e'.session).sendCipher := by
      rw [((h.side x).cells.ciphers _ huses).2, E.recvKey_eq, Which.flip_flip, hcur,
        ((h.side !x).cells.ciphers _ (Phase.uses_current hl')).1]
    rw [hkey]
    exact hdec
  · have hwindow := (h.traffic !x).windows l'.current.flip
    simp only [Bool.not_not, Which.flip_flip] at hwindow
    rw [hcounter]
    rcases hwindow huses with hnew | ⟨-, hlt⟩
    · show (((n.node x).view (ref x) l'.current.flip).window.accept c).1 = true
      rw [hnew]
      exact ReplayWindow.new_accept c
    · rw [Session.view, Session.view, ← hcur] at hlt
      rw [ReplayWindow.accept_ahead (UInt64.lt_of_lt_of_le hlt hc)]

theorem InPhase.keyed {ref : Which → Ref} (h : InPhase E x p ref s) {l : Layout} (hl : p.layout = some l) :
    (l.current = .own → s.keyed (E.keys x) .initiator = true)
      ∧ (l.current = .theirs → s.keyed (E.keys !x) .responder = true) := by
  obtain ⟨f, hstate⟩ := h.state_of_layout hl
  obtain ⟨hsend, hrecv⟩ := h.cells.ciphers _ (Phase.uses_current hl)
  constructor
  all_goals
    intro hcur
    rw [hcur] at hsend hrecv
    simp only [Session.keyed, hstate, Phase.initiated_eq hl, hcur, hsend, hrecv]
    simp [TransportSession.new, Exchanges.sendKey, Exchanges.recvKey]

theorem Net.sameHandshake_of_keyed (hx : (n.node x).keyed (E.keys x) .initiator = true)
    (hy : (n.node !x).keyed (E.keys x) .responder = true) : n.sameHandshake R = true := by
  have hside : ((R.handshakeKeys x).any fun keys =>
      (n.node x).keyed keys .initiator && (n.node !x).keyed keys .responder) = true := by
    simp [E.handshakeKeys, hx, hy]
  exact List.any_eq_true.mpr ⟨x, by cases x <;> simp, hside⟩

theorem Simulates.sameHandshake (h : Simulates E D n o ref) (hs : o.Settled)
    (hagree : ∀ x, Opening.Agree (o.phase x) (o.phase !x)) : n.sameHandshake R = true := by
  obtain ⟨l, hl⟩ := isSome_iff_exists.mp (hs.live true)
  obtain ⟨l', hl'⟩ := isSome_iff_exists.mp (hs.live false)
  have hcur := hagree true l l' hl hl'
  cases hcur' : l'.current with
  | own =>
    rw [hcur'] at hcur
    exact Net.sameHandshake_of_keyed (x := false) (((h.side false).keyed hl').1 hcur')
      (((h.side true).keyed hl).2 hcur)
  | theirs =>
    rw [hcur'] at hcur
    exact Net.sameHandshake_of_keyed (x := true) (((h.side true).keyed hl).1 hcur)
      (((h.side false).keyed hl').2 hcur')

end

/-! ### From a quiet point on -/

/-- From a quiet point on, where `k` messages had been delivered: the sides agree, or one holds the
keys the other sends under and has not heard from it since. -/
def Converging (E : Exchanges R) (k : Bool → ℕ) (n : Net P) : Prop :=
  ∃ o ref, o.Inv R.winner ∧ o.Settled ∧
    (Simulates E (fun _ _ => True) n o ref ∧ (∀ x, Opening.Agree (o.phase x) (o.phase !x))
      ∨ ∃ x, o.phase x = .holding ∧ o.phase (!x) = .keeping ∧ n.delivered x = k x
        ∧ Simulates E (fun z w => z = x → w = .own) n o ref)

variable {n : Net P}

theorem Reached.converging (h : Reached E n) (hempty : ∀ x, n.inbox x = [])
    (hlive : ∀ x, ∃ e, (n.node x).state = .established e) : Converging E n.delivered n := by
  obtain ⟨o, ref, hinv, hsim⟩ := h
  have hs : o.Settled := hsim.settled (fun x pkt hpkt => by simp [hempty x] at hpkt) hlive
  have hany : ∀ D, Simulates E D n o ref := fun D =>
    ⟨hsim.side, hsim.init_iff, hsim.response_iff,
      fun y => ⟨fun m hm => by simp [hempty] at hm, (hsim.traffic y).windows⟩⟩
  refine ⟨o, ref, hinv, hs, ?_⟩
  rcases (hs.side hinv true).settled_cases (hs.other hinv true) with hagree | ⟨hp, hq⟩ | ⟨hp, hq⟩
  · exact .inl ⟨hsim, forall_sides true hagree hagree.symm⟩
  · exact .inr ⟨true, hp, hq, rfl, hany _⟩
  · exact .inr ⟨false, hq, hp, rfl, hany _⟩

theorem agree_promoted : Opening.Agree .promoted .keeping := by
  rintro l l' ⟨⟩ ⟨⟩
  rfl

theorem Converging.step (hR : R.Ideal) {k : Bool → ℕ} (h : Converging E k n) {ev : Net.Event}
    (hok : n.permitted ev = true) : Converging E k (n.step R ev) := by
  obtain ⟨o, ref, hinv, hs, ⟨hsim, hagree⟩ | ⟨x, hx, hy, hk, hsim⟩⟩ := h
  · obtain ⟨o', ref', hout, hsim'⟩ := hsim.step hR.correct (hR.separate_exchanges E)
      hR.distinct_bytes (fun _ _ _ => trivial) hok
    rcases hout.stays_or_moves with rfl | hmove
    · exact ⟨_, ref', hinv, hs, .inl ⟨hsim', hagree⟩⟩
    · exact ⟨o', ref', hmove.keeps hinv, hs.keeps hinv hmove, .inl ⟨hsim', hs.agree_keeps hinv hmove hagree⟩⟩
  · have hD : ∀ y l, (o.phase y).layout = some l → (!y) = x → l.current = .own := by
      rintro y l hl rfl
      rw [Bool.not_not] at hy
      rw [hy] at hl
      cases hl
      rfl
    obtain ⟨o', ref', hout, hsim'⟩ := hsim.step hR.correct (hR.separate_exchanges E) hR.distinct_bytes hD hok
    have hkeeps : o'.Inv R.winner ∧ o'.Settled := by
      rcases hout.stays_or_moves with rfl | hmove
      · exact ⟨hinv, hs⟩
      · exact ⟨hmove.keeps hinv, hs.keeps hinv hmove⟩
    refine ⟨o', ref', hkeeps.1, hkeeps.2, ?_⟩
    -- a side that is not `x` keeps its phase whatever it opens
    have hstay : o'.phase = o.phase → (n.step R ev).delivered x = n.delivered x →
        ∃ x, o'.phase x = .holding ∧ o'.phase (!x) = .keeping ∧ (n.step R ev).delivered x = k x
          ∧ Simulates E (fun z w => z = x → w = .own) (n.step R ev) o' ref' := by
      intro hphase hcount
      exact ⟨x, by rw [hphase, hx], by rw [hphase, hy], hcount.trans hk, hsim'⟩
    have hpromoted : o'.phase = update o.phase x .promoted →
        Simulates E (fun _ _ => True) (n.step R ev) o' ref'
          ∧ ∀ x, Opening.Agree (o'.phase x) (o'.phase !x) := by
      intro hphase
      refine ⟨hsim'.mono fun _ _ _ => trivial, forall_sides x ?_ ?_⟩
      · simpa [hphase, hy] using agree_promoted
      · simpa [hphase, hy] using agree_promoted.symm
    cases hout with
    | stay ho hcount => exact .inr (hstay (by rw [ho]) (by rw [hcount]))
    | move hmove hcount =>
      obtain ⟨z, -, rfl⟩ := hs.move hinv hmove
      by_cases hz : z = x
      · subst hz
        exact .inl (hpromoted (by rw [hx]; rfl))
      · obtain rfl : z = !x := by cases z <;> cases x <;> simp_all
        refine .inr (hstay ?_ (by rw [hcount]))
        rw [hy]
        exact (update_eq_self_iff).mpr hy.symm
    | receive z w hDz huses ho hcount =>
      by_cases hz : z = x
      · subst hz
        obtain rfl : w = .own := hDz rfl
        exact .inl (hpromoted (by rw [ho, hx]; rfl))
      · obtain rfl : z = !x := by cases z <;> cases x <;> simp_all
        refine .inr (hstay ?_ (by simp [hcount]))
        have hsame : (o.phase !x).receive w = o.phase !x := by
          rw [hy]
          cases w <;> rfl
        rw [ho]
        rw [hsame, update_eq_self]

/-- **Simultaneous open converges.**  Where no handshake message is lost, each side opens what the
other seals, and once each was heard both use one handshake. -/
theorem simultaneous_open_converges (R : Pair P) (hR : R.Ideal) {evs : List Net.Event}
    (hevs : Along (Net.step R) Net.permitted R.start evs = true) :
    ((∀ x, ∀ pkt ∈ (Net.after R evs).inbox x, pkt.isData = true) →
      ∀ x m now, ((Net.after R evs).node x).isEstablished = true →
        ((Net.after R evs).node !x).Seals m → ((Net.after R evs).node x).timely now = true →
        ((Net.after R evs).node x).receives m now = true) ∧ ((∀ x, (Net.after R evs).inbox x = []) →
      (∀ x, ((Net.after R evs).node x).isEstablished = true) →
      ∀ evs', Along (Net.step R) Net.permitted (Net.after R evs) evs' = true →
        (∀ x, (Net.after R evs).delivered x < (Net.after R (evs ++ evs')).delivered x) →
        (Net.after R (evs ++ evs')).sameHandshake R = true) := by
  obtain ⟨E⟩ := exchanges_exist hR.correct R hR.paired
  have hreached := reached_after hR E hevs
  constructor
  · intro hquiet x m now hx hm ht
    obtain ⟨o, ref, hinv, hsim⟩ := hreached
    have hlive : ∀ y, ∃ e, ((Net.after R evs).node y).state = .established e := by
      refine forall_sides x (Session.isEstablished_iff.mp hx) ?_
      obtain ⟨e, -, -, -, he, -⟩ := hm
      exact ⟨e, he⟩
    exact hsim.receives hinv (hsim.settled hquiet hlive) hR.correct hm ht
  · intro hempty hlive evs' hevs' hdelivered
    have hconv : Converging E (Net.after R evs).delivered (Net.after R (evs ++ evs')) := by
      rw [Net.after_append]
      exact along_induction (fun _ _ hok h => h.step hR hok)
        (hreached.converging hempty fun x => Session.isEstablished_iff.mp (hlive x)) hevs'
    obtain ⟨o, ref, -, hs, ⟨hsim, hagree⟩ | ⟨x, -, -, hsame, -⟩⟩ := hconv
    · exact hsim.sameHandshake hs hagree
    · exact absurd hsame (Nat.ne_of_gt (hdelivered x))

def referencePair : Pair reference where
  keys x := if x then referenceKeys 3 else referenceKeys 5
  psk := referencePsk
  pskEpoch _ := 0
  index x := if x then 1 else 8
  seed x := Vector.replicate 32 (if x then 1 else 2)
  rand x := ⟨Vector.replicate 32 (if x then 3 else 4), Vector.replicate 32 (if x then 5 else 6)⟩

theorem referencePair_direction (x : Bool) : (referencePair.handshakeKeys x).all (fun k =>
      decide (((k.initiatorToResponder ++ Reference.zeros 14).take 14)[2]? = some 0
        ∧ ((k.responderToInitiator ++ Reference.zeros 14).take 14)[2]? = some 1)) = true := by
  cases x <;> decide +kernel

theorem referencePair_ideal : referencePair.Ideal where
  correct := reference_correct
  paired x := by
    cases x
    · exact referenceKeys_paired 5
    · exact referenceKeys_paired 3
  distinct := show (5 : UInt8) ≠ 3 by decide
  separate x k k' hk hk' := by
    have hx := referencePair_direction x
    have hy := referencePair_direction (!x)
    simp only [hk, hk', all_some, decide_eq_true_eq] at hx hy
    have hne : (k.initiatorToResponder ++ Reference.zeros 14).take 14
        ≠ (k'.responderToInitiator ++ Reference.zeros 14).take 14 := by
      intro heq
      rw [heq, hy.2] at hx
      cases hx.1
    exact ⟨reference_separates hne, reference_separates hne.symm⟩

/-- Both dial.  The first node's handshake finishes and carries a message each way before the other
one's does; the second node has the higher key and goes over to its own. -/
def crossedRun : List Net.Event :=
  [.dial true 0, .dial false 0, .arrive false 0 false 1, .arrive true 1 false 1,
    .send true [9] 2, .send false [7] 2, .arrive true 1 false 3, .arrive true 0 false 4,
    .arrive false 1 false 5, .arrive false 0 false 6]

def heardRun : List Net.Event :=
  [.send false [7] 7, .arrive true 0 false 8, .send true [9] 9, .arrive false 0 false 9]

theorem crossedRun_facts : let n := Net.after referencePair crossedRun
    Along (Net.step referencePair) Net.permitted referencePair.start crossedRun = true
    ∧ (∀ x, (n.inbox x = [] ∧ (n.node x).isEstablished = true) ∧ n.delivered x = 1)
    ∧ n.sameHandshake referencePair = false ∧ Along (Net.step referencePair) Net.permitted n heardRun = true
    ∧ ∀ x, (run (Net.step referencePair) n heardRun).delivered x = 2 := by
  decide +kernel

theorem crossedRun_converges :
    (Net.after referencePair (crossedRun ++ heardRun)).sameHandshake referencePair = true := by
  obtain ⟨hrun, hsides, -, hrun', htwo⟩ := crossedRun_facts
  refine (simultaneous_open_converges referencePair referencePair_ideal hrun).2
    (fun x => (hsides x).1.1) (fun x => (hsides x).1.2) heardRun hrun' fun x => ?_
  rw [Net.after_append, (hsides x).2, htwo]
  exact Nat.lt_succ_self 1

/-- A message delivered before the last handshake message does not count: nothing is in flight, each
side has delivered one, and the current sessions come from different handshakes. -/
theorem crossedRun_disagrees :
    Along (Net.step referencePair) Net.permitted referencePair.start crossedRun = true
      ∧ (∀ x, (Net.after referencePair crossedRun).inbox x = [])
      ∧ (∀ x, ((Net.after referencePair crossedRun).node x).isEstablished = true)
      ∧ (∀ x, (Net.after referencePair crossedRun).delivered x = 1)
      ∧ (Net.after referencePair crossedRun).sameHandshake referencePair = false := by
  obtain ⟨hrun, hsides, hother, -⟩ := crossedRun_facts
  exact ⟨hrun, fun x => (hsides x).1.1, fun x => (hsides x).1.2, fun x => (hsides x).2, hother⟩

end Karst.Node
