import Karst.Noise.KeyAgreement
import Karst.Node.KeySlots

/-!
# Reception across an answered handshake

Answering a `HandshakeInit` on an established session leaves the keys in use alone and puts the new
ones in the waiting slot.  That slot holds one set of keys, so the answer drops whatever was waiting
there before.
-/

namespace Karst.Node

open Crypto Noise TransportSession Session Vector

variable {P : Primitives}

def Opens (P : Primitives) (t : TransportSession) (d : Bytes) (now : ℕ) : Prop :=
  ∃ p, (t.openData P d now).2 = .ok p

theorem not_opens_of_error {t : TransportSession} {d : Bytes} {now : ℕ} {e : TransportError}
    (h : (t.openData P d now).2 = .error e) : ¬ Opens P t d now := by
  rintro ⟨p, hp⟩
  rw [h] at hp
  cases hp

/-- The order of the attempts decides which cell is written, not whether one opens the message. -/
theorem Inbound.opens_iff (self : Inbound) (arena : Arena TransportSession) (d : Bytes) (now : ℕ) :
    (self.openWith P arena d now).2.isOk = true ↔ ∃ r, self.Holds r ∧ Opens P (arena.cell r) d now := by
  have hspec := openWith_spec (P := P) self arena d now
  generalize self.openWith P arena d now = out at hspec
  cases hspec with
  | @current p h => exact ⟨fun _ => ⟨_, .inl rfl, p, h⟩, fun _ => rfl⟩
  | @previous e r p _ hr h => exact ⟨fun _ => ⟨r, .inr (.inr hr), p, h⟩, fun _ => rfl⟩
  | @pending e r p _ _ hr h => exact ⟨fun _ => ⟨r, .inr (.inl hr), p, h⟩, fun _ => rfl⟩
  | refused hcur hprev hpend =>
    refine ⟨fun h => absurd h (by simp [Except.isOk, Except.toBool]), ?_⟩
    rintro ⟨r, rfl | hr | hr, hopens⟩
    · exact absurd hopens (not_opens_of_error hcur)
    · obtain ⟨e, he⟩ := hpend r hr
      exact absurd hopens (not_opens_of_error he)
    · obtain ⟨e, he⟩ := hprev r hr
      exact absurd hopens (not_opens_of_error he)

namespace Session

def receives (s : Session P) (d : Bytes) (now : ℕ) : Bool :=
  match s.inbound with
  | none => false
  | some inb => (inb.openWith P s.arena d now).2.isOk

theorem receives_iff (s : Session P) (d : Bytes) (now : ℕ) :
    s.receives d now = true ↔ ∃ r, s.Holds r ∧ Opens P (s.arena.cell r) d now := by
  unfold receives Holds
  cases s.inbound with
  | none => simp
  | some inb => simp [inb.opens_iff]

end Session

structure AllocatedSession (P : Primitives) where
  session : Session P
  wellFormed : session.WellFormed

/-! ### What the waiting keys open -/

theorem exists_opens (hP : P.Correct) {t : TransportSession} {c : UInt64}
    (hc : (t.window.accept c).1 = true) : ∃ d, Opens P t d t.establishedMs
      ∧ ∀ u : TransportSession, P.Separates t.recvCipher u.recvCipher → ¬ Opens P u d t.establishedMs := by
  obtain ⟨m, f, pt, hf, hcounter, hdec, hsep⟩ := exists_frame hP t.recvCipher c
  have hlive : t.expired t.establishedMs = false := by
    simp [expired, REJECT_AFTER_MS]
  refine ⟨m, ⟨pt, openData_eq_ok.mpr ⟨hlive, f, hf, hdec, ?_⟩⟩, ?_⟩
  · rwa [hcounter]
  · rintro u hu ⟨p, hp⟩
    obtain ⟨-, f', hf', hdec', -⟩ := openData_eq_ok.mp hp
    obtain rfl : f = f' := Except.ok.inj (hf.symm.trans hf')
    rw [hsep _ hu] at hdec'
    cases hdec'

theorem not_opens_of_full {t : TransportSession} (h : ∀ c, (t.window.accept c).1 = false) (d : Bytes)
    (now : ℕ) : ¬ Opens P t d now := by
  rintro ⟨p, hp⟩
  obtain ⟨-, f, -, -, haccept⟩ := openData_eq_ok.mp hp
  rw [h f.counter] at haccept
  cases haccept

/-- The keys waiting in a session share no messages with the ones beside them, nor with the ones
an answer brings. -/
def WaitingSeparate (s : Session P) (e : Established P) (keys : TransportKeys) : Prop :=
  ∀ p, e.pending = some p → ∀ k, (k = (s.arena.cell e.session).recvCipher
      ∨ (∃ q, e.previous = some q ∧ k = (s.arena.cell q).recvCipher) ∨ k = keys.initiatorToResponder) →
    P.Separates (s.arena.cell p).recvCipher k

theorem adoptResponder_holds {s : Session P} {e : Established P} (he : s.state = .established e)
    (init : Bytes) (keys : TransportKeys) (msg2 : Bytes) (now : ℕ) (seed : Seed) (r : Ref) :
    (s.adoptResponder init keys msg2 now seed).1.Holds r
      ↔ r = e.session ∨ r = s.arena.next ∨ e.previous = some r := by
  have hstate : (s.adoptResponder init keys msg2 now seed).1.state
      = .established { e with pending := some s.arena.next } := by
    rw [adoptResponder_fst]
    simp only [he]
  rw [holds_of_established hstate]
  simp [eq_comm]

theorem adoptResponder_arena (s : Session P) (init : Bytes) (keys : TransportKeys) (msg2 : Bytes)
    (now : ℕ) (seed : Seed) : (s.adoptResponder init keys msg2 now seed).1.arena
      = s.arena.alloc (new keys .responder s.index now) := by
  rw [adoptResponder_fst]

/-- **What answering an init costs**: nothing, exactly when no keys waited that could still open a
message. -/
theorem reception_kept_iff (hP : P.Correct) (node : AllocatedSession P) {e : Established P}
    (he : node.session.state = .established e) (init : Bytes) (keys : TransportKeys) (msg2 : Bytes)
    (callMs : ℕ) (seed : Seed) (hsep : WaitingSeparate node.session e keys) :
    (∀ d now, node.session.receives d now = true →
        (node.session.adoptResponder init keys msg2 callMs seed).1.receives d now = true)
      ↔ ∀ p, e.pending = some p → ∀ c, ((node.session.arena.cell p).window.accept c).1 = false := by
  obtain ⟨s, hwf⟩ := node
  have hallocated : ∀ r, s.Holds r → (s.arena.alloc
      (new keys .responder s.index callMs)).cell r = s.arena.cell r :=
    fun r hr => s.arena.alloc_cell_lt _ (hwf r hr)
  have hheld := holds_of_established he
  simp only [receives_iff, adoptResponder_holds he, adoptResponder_arena]
  constructor
  · intro hkept p hp c
    by_contra hroom
    obtain ⟨d, hopens, hother⟩ := exists_opens hP (by simpa using hroom)
    have hpheld : s.Holds p := (hheld p).mpr (.inr (.inl hp))
    obtain ⟨r, hr, hropens⟩ := hkept d _ ⟨p, hpheld, hopens⟩
    refine hother _ (hsep p hp _ ?_) hropens
    rcases hr with rfl | rfl | hr
    · exact .inl (congrArg _ (hallocated _ ((hheld _).mpr (.inl rfl))))
    · exact .inr (.inr (by rw [Arena.alloc_cell_self]; rfl))
    · exact .inr (.inl ⟨r, hr, congrArg _ (hallocated r ((hheld r).mpr (.inr (.inr hr))))⟩)
  · rintro hfull d now ⟨r, hr, hopens⟩
    have hcell := hallocated r hr
    rcases (hheld r).mp hr with hcur | hpend | hprev
    · exact ⟨r, .inl hcur, by rwa [hcell]⟩
    · exact absurd hopens (not_opens_of_full (hfull r hpend) d now)
    · exact ⟨r, .inr (.inr hprev), by rwa [hcell]⟩

/-- A reference node's session for its peer, before anything happened. -/
def referenceSession : Session reference :=
  Session.new (referenceKeys 5) ⟨(referenceKeys 3).kemPk, referencePsk⟩ 0 8

/-- It answers two inits: the first answer's keys carry traffic, the second's wait. -/
def answeredTwice : Session reference :=
  let s := (referenceSession.adoptResponder [1] ⟨[1], [2]⟩ [] 0 (Vector.replicate 32 0)).1
  (s.adoptResponder [2] ⟨[3], [4]⟩ [] 0 (Vector.replicate 32 1)).1

theorem answeredTwice_wellFormed : answeredTwice.WellFormed := by
  refine adoptResponder_turn.wellFormed ?_
  exact adoptResponder_turn.wellFormed (new_wellFormed _ _ _ _)

/-- A third answer, for keys separated from the waiting ones, loses messages. -/
theorem reception_lost_by_third_answer : ¬ ∀ d now, answeredTwice.receives d now = true →
      (answeredTwice.adoptResponder [3] ⟨[5], [6]⟩ [] 0 (Vector.replicate 32 2)).1.receives d now = true := by
  have hsep : WaitingSeparate answeredTwice ⟨0, false, none, some 1, none⟩ ⟨[5], [6]⟩ := by
    rintro p hp k (rfl | ⟨q, hq, -⟩ | rfl)
    · obtain rfl : 1 = p := Option.some.inj hp
      exact reference_separates (by decide)
    · cases hq
    · obtain rfl : 1 = p := Option.some.inj hp
      exact reference_separates (by decide)
  intro hkept
  have hfull := (reception_kept_iff reference_correct ⟨answeredTwice, answeredTwice_wellFormed⟩ rfl
    [3] ⟨[5], [6]⟩ [] 0 (replicate 32 2) hsep).mp hkept
  exact absurd (hfull 1 rfl 0) (by decide)

/-- An init for the reference node, from whoever `keys` says, with ephemerals from `b`. -/
def referenceInit (keys : StaticKeys reference) (b : UInt8) :
    Except HandshakeError (Initiator reference × Bytes) :=
  initiate keys ⟨(referenceKeys 5).kemPk, referencePsk⟩ ⟨0, 1⟩
    ⟨Vector.replicate 64 b, Vector.replicate 32 b, Vector.replicate 12 0⟩

def forgedKeys : StaticKeys reference := ⟨(0 : UInt8), (3 : UInt8)⟩

/-- The node answers two handshakes of its peer, which finishes the second and sends under its keys.
Then it answers an init made without the peer's secret, and the peer's message no longer opens. -/
theorem forged_init_drops_traffic : (do
      let (_, init1) ← (referenceInit (referenceKeys 3) 1).toOption
      let (ini, init2) ← (referenceInit (referenceKeys 3) 2).toOption
      let (_, forged) ← (referenceInit forgedKeys 4).toOption
      let s := (referenceSession.respondTo init1 referenceRandR 0).1
      let s := (s.respondTo init2 referenceRandR 0).1
      let (_, answer) ← s.answered
      let keys ← (ini.tryFinish answer).toOption
      let peer := TransportSession.new keys .initiator 0 0
      let d ← (peer.sealData reference [9] 1).2.toOption
      return (s.receives d 1, (s.respondTo forged referenceRandR 0).1.receives d 1))
      = some (true, false) := by
  decide +kernel

/-! ### Expiry -/

namespace Session

/-- The keys `r` are in use or wait, they stand as `t`, and what opens under `t` is received. -/
structure Available (s : Session P) (r : Ref) (t : TransportSession) : Prop where
  slot : ∃ e, s.state = .established e ∧ (e.pending = some r ∨ e.session = r)
  cell_eq : s.arena.cell r = t
  receives : ∀ d now, Opens P t d now → s.receives d now = true

variable {s : Session P} {e : Established P} {r : Ref} {now : ℕ}

theorem available (he : s.state = .established e) (hr : e.pending = some r ∨ e.session = r) :
    s.Available r (s.arena.cell r) where
  slot := ⟨e, he, hr⟩
  cell_eq := rfl
  receives d now hd := by
    refine (s.receives_iff d now).mpr ⟨r, (holds_of_established he r).mpr ?_, hd⟩
    rcases hr with hr | hr
    · exact .inr (.inl hr)
    · exact .inl hr.symm

end Session

end Karst.Node
