import Mathlib

/-!
# Simultaneous open, abstractly

Two sides may each dial the other once.  Dialling starts a handshake of one's own; answering takes
part in the other's.  A side sends under the keys of one of the two handshakes and may hold those
of the other beside it.  This file follows the phases of the two sides while inits and responses
are in flight, reordered and duplicated but not lost, and knows nothing of keys or messages.
-/

namespace Karst.Node.OpenProtocol

open Function

/-- Whose handshake a set of keys comes from, seen from one side. -/
inductive Which where
  | own
  | theirs
  deriving DecidableEq

def Which.flip : Which → Which
  | own => theirs
  | theirs => own

@[simp] theorem Which.flip_flip (w : Which) : w.flip.flip = w := by cases w <;> rfl

inductive Phase where
  /-- Nothing has happened. -/
  | idle
  /-- Dialled; waiting for the response. -/
  | dialing
  /-- Answered without having dialled. -/
  | answered
  /-- Dialled and answered; the own handshake is still out. -/
  | crossed
  /-- Dialled and answered; the own handshake finished and was given up. -/
  | conceded
  /-- Dialled and finished. -/
  | finished
  /-- Dialled and finished, then answered: the other's keys wait. -/
  | holding
  /-- Dialled and answered, then finished: the other's keys are kept for decryption. -/
  | keeping
  /-- Held the other's keys until a message proved them. -/
  | promoted
  deriving DecidableEq

/-- The keys of a side with a session: those it sends under and what is beside them. -/
structure Layout where
  initiated : Bool
  current : Which
  pending : Option Which
  previous : Option Which

namespace Phase

def layout : Phase → Option Layout
  | idle | dialing => none
  | answered | crossed | conceded => some ⟨false, .theirs, none, none⟩
  | finished => some ⟨true, .own, none, none⟩
  | holding => some ⟨true, .own, some .theirs, none⟩
  | keeping => some ⟨true, .own, none, some .theirs⟩
  | promoted => some ⟨false, .theirs, none, some .own⟩

def uses (p : Phase) (w : Which) : Bool :=
  p.layout.any fun l => l.current == w || l.pending == some w || l.previous == some w

def dialled : Phase → Bool
  | idle | answered => false
  | _ => true

def hasAnswered : Phase → Bool
  | idle | dialing | finished => false
  | _ => true

def awaiting : Phase → Bool
  | dialing | crossed => true
  | _ => false

def answer : Phase → Phase
  | idle => answered
  | dialing => crossed
  | finished => holding
  | p => p

def finish (wins : Bool) : Phase → Phase
  | dialing => finished
  | crossed => if wins then keeping else conceded
  | p => p

def prove : Phase → Phase
  | holding => promoted
  | p => p

def receive (w : Which) (p : Phase) : Phase := if w = .own then p.prove else p

/-! ### What the moves keep -/

variable (p : Phase)

@[simp] theorem answer_hasAnswered : p.answer.hasAnswered = true := by cases p <;> rfl

@[simp] theorem answer_dialled : p.answer.dialled = p.dialled := by cases p <;> rfl

@[simp] theorem answer_awaiting : p.answer.awaiting = p.awaiting := by cases p <;> rfl

variable (wins : Bool)

@[simp] theorem finish_hasAnswered : (p.finish wins).hasAnswered = p.hasAnswered := by
  cases p <;> cases wins <;> rfl

@[simp] theorem finish_dialled : (p.finish wins).dialled = p.dialled := by
  cases p <;> cases wins <;> rfl

@[simp] theorem finish_awaiting : (p.finish wins).awaiting = false := by
  cases p <;> cases wins <;> rfl

@[simp] theorem prove_hasAnswered : p.prove.hasAnswered = p.hasAnswered := by
  cases p <;> rfl

@[simp] theorem prove_dialled : p.prove.dialled = p.dialled := by cases p <;> rfl

@[simp] theorem prove_awaiting : p.prove.awaiting = p.awaiting := by cases p <;> rfl

theorem uses_theirs : p.uses .theirs = p.hasAnswered := by cases p <;> rfl

variable {w : Which}

theorem answer_uses : p.answer.uses w = true ↔ w = .theirs ∨ p.uses w = true := by
  cases p <;> cases w <;> simp [answer, uses, layout]

theorem finish_uses (h : p.awaiting = true) : (p.finish true).uses w = true ↔ w = .own ∨ p.uses w = true := by
  cases p <;> cases w <;> simp [finish, uses, layout] <;> cases h

theorem not_uses_own (h : p.awaiting = true) : p.uses .own = false := by
  cases p <;> first | rfl | cases h

@[simp] theorem prove_uses (w : Which) : p.prove.uses w = p.uses w := by
  cases p <;> cases w <;> rfl

variable {p} {l : Layout}

theorem uses_iff (h : p.layout = some l) :
    p.uses w = true ↔ l.current = w ∨ l.pending = some w ∨ l.previous = some w := by
  simp [uses, h, or_assoc]

theorem uses_current (h : p.layout = some l) : p.uses l.current = true :=
  (uses_iff h).mpr (.inl rfl)

theorem initiated_eq (h : p.layout = some l) : l.initiated = decide (l.current = .own) := by
  cases p <;> cases h <;> rfl

theorem pending_ne (h : p.layout = some l) (hw : l.current = w ∨ l.previous = some w) :
    l.pending ≠ some w := by
  cases p <;> cases h <;> cases w <;> simp_all

theorem receive_of_not_pending (h : p.layout = some l) (hw : l.pending ≠ some w.flip) :
    p.receive w = p := by
  cases p <;> cases h <;> cases w <;> simp_all [receive, prove, Which.flip]

theorem holding_of_pending (h : p.layout = some l) (hw : l.pending = some w) :
    p = .holding ∧ w = .theirs := by
  cases p <;> cases h <;> cases w <;> simp_all

end Phase

/-- Both sides and the handshake messages in flight: `init x` is the one `x` sent, `response x` the
one on its way to `x`. -/
structure Opening where
  phase : Bool → Phase
  init : Bool → Bool
  response : Bool → Bool

namespace Opening

def start : Opening := ⟨fun _ => .idle, fun _ => false, fun _ => false⟩

/-- One thing that can happen.  A message that arrives may have been duplicated, so it may or may
not be in flight afterwards. -/
inductive Move (winner : Bool) (o : Opening) : Opening → Prop
  | dial (x : Bool) (h : o.phase x = .idle) :
      Move winner o ⟨Function.update o.phase x .dialing, Function.update o.init x true, o.response⟩
  | resend (x : Bool) (h : (o.phase x).awaiting = true) :
      Move winner o ⟨o.phase, Function.update o.init x true, o.response⟩
  | answer (x more : Bool) (h : o.init x = true) :
      Move winner o ⟨Function.update o.phase (!x) (o.phase !x).answer,
        Function.update o.init x more, Function.update o.response x true⟩
  | finish (x more : Bool) (h : o.response x = true) :
      Move winner o ⟨Function.update o.phase x ((o.phase x).finish (x == winner)), o.init,
        Function.update o.response x more⟩
  | prove (x : Bool) (h : (o.phase !x).uses .own = true) :
      Move winner o ⟨Function.update o.phase x (o.phase x).prove, o.init, o.response⟩

/-! ### The invariant -/

/-- What holds between one side in phase `p`, the other in phase `q`, and the messages of the
handshake the first one dials. -/
structure Side (wins : Bool) (p q : Phase) (init response : Bool) : Prop where
  answered_dialled : q.hasAnswered = true → p.dialled = true
  init_dialled : init = true → p.dialled = true
  response_answered : response = true → q.hasAnswered = true
  /-- No init is lost. -/
  init_kept : p.dialled = true → q.hasAnswered = false → init = true
  /-- No response is lost. -/
  response_kept : q.hasAnswered = true → p.awaiting = true → response = true
  /-- Whoever finished was answered. -/
  finished_answered : p.dialled = true → p.awaiting = false → q.hasAnswered = true
  conceded_loses : p = .conceded → wins = false
  keeping_wins : p = .keeping → wins = true
  holding_other : p = .holding → q = .crossed ∨ q = .conceded ∨ q = .keeping
  promoted_other : p = .promoted → q = .keeping

def Inv (winner : Bool) (o : Opening) : Prop :=
  ∀ x, Side (x == winner) (o.phase x) (o.phase !x) (o.init x) (o.response x)

theorem start_inv (winner : Bool) : start.Inv winner := by
  intro x
  constructor <;> simp [start, Phase.hasAnswered, Phase.dialled, Phase.awaiting]

section

variable {w w' : Bool} {p q : Phase} {i r i' r' : Bool}

theorem Side.dial (hx : Side w .idle q i r) : Side w .dialing q true r where
  answered_dialled _ := rfl
  init_dialled _ := rfl
  response_answered := hx.response_answered
  init_kept _ _ := rfl
  response_kept hq _ := absurd (hx.answered_dialled hq) (by simp [Phase.dialled])
  finished_answered _ ha := absurd ha (by simp [Phase.awaiting])
  conceded_loses := nofun
  keeping_wins := nofun
  holding_other := nofun
  promoted_other := nofun

/-- One side moves on without dialling or finishing. -/
theorem Side.change (hx : Side w p q i r) {p' : Phase} (hdialled : p'.dialled = p.dialled)
    (hawaiting : p'.awaiting = p.awaiting) (hconceded : p' = .conceded → w = false)
    (hkeeping : p' = .keeping → w = true)
    (hholding : p' = .holding → q = .crossed ∨ q = .conceded ∨ q = .keeping)
    (hpromoted : p' = .promoted → q = .keeping) : Side w p' q i r where
  answered_dialled := hdialled ▸ hx.answered_dialled
  init_dialled := hdialled ▸ hx.init_dialled
  response_answered := hx.response_answered
  init_kept := hdialled ▸ hx.init_kept
  response_kept := hawaiting ▸ hx.response_kept
  finished_answered := hdialled ▸ hawaiting ▸ hx.finished_answered
  conceded_loses := hconceded
  keeping_wins := hkeeping
  holding_other := hholding
  promoted_other := hpromoted

/-- The other side moves on without answering. -/
theorem Side.change_other (hy : Side w' q p i' r') {p' : Phase} (h : p'.hasAnswered = p.hasAnswered)
    (hholding : q = .holding → p' = .crossed ∨ p' = .conceded ∨ p' = .keeping)
    (hpromoted : q = .promoted → p' = .keeping) : Side w' q p' i' r' :=
  { hy with
    answered_dialled := h ▸ hy.answered_dialled
    response_answered := h ▸ hy.response_answered
    init_kept := h ▸ hy.init_kept
    response_kept := h ▸ hy.response_kept
    finished_answered := h ▸ hy.finished_answered
    holding_other := hholding
    promoted_other := hpromoted }

theorem Side.dial_other (hy : Side w' q .idle i' r') : Side w' q .dialing i' r' := by
  refine hy.change_other rfl ?_ ?_
  · intro hq
    simpa using hy.holding_other hq
  · intro hq
    simpa using hy.promoted_other hq

theorem Side.resend (hx : Side w p q i r) (h : p.awaiting = true) : Side w p q true r :=
  { hx with
    init_dialled := fun _ => by cases p <;> first | rfl | cases h
    init_kept := fun _ _ => rfl }

theorem Side.answer (hx : Side w p q true r) (more : Bool) : Side w p q.answer more true where
  answered_dialled _ := hx.init_dialled rfl
  init_dialled _ := hx.init_dialled rfl
  response_answered _ := q.answer_hasAnswered
  init_kept _ hq := absurd hq (by simp)
  response_kept _ _ := rfl
  finished_answered _ _ := q.answer_hasAnswered
  conceded_loses := hx.conceded_loses
  keeping_wins := hx.keeping_wins
  holding_other hp := by
    rcases hx.holding_other hp with rfl | rfl | rfl <;> simp [Phase.answer]
  promoted_other hp := by
    rw [hx.promoted_other hp]
    rfl

/-- An init arrives: the view of the side that answers.  A side that has already finished holds the
new keys back; the other side cannot be holding or promoted then. -/
theorem Side.answer_other (hx : Side w p q true r) (hy : Side w' q p i' r') : Side w' q.answer p i' r' := by
  refine hy.change (by simp) (by simp) ?_ ?_ ?_ ?_
  · intro hq
    cases q <;> first | exact hy.conceded_loses rfl | cases hq
  · intro hq
    cases q <;> first | exact hy.keeping_wins rfl | cases hq
  · intro hq
    cases q with
    | holding => exact hy.holding_other rfl
    | finished =>
      have hanswered : p.hasAnswered = true := hy.finished_answered rfl rfl
      have hdialled : p.dialled = true := hx.init_dialled rfl
      have hnotHolding : p ≠ .holding := fun hp => by simpa using hx.holding_other hp
      have hnotPromoted : p ≠ .promoted := fun hp => by simpa using hx.promoted_other hp
      cases p <;> simp_all [Phase.hasAnswered, Phase.dialled]
    | idle | dialing | answered | crossed | conceded | keeping | promoted => cases hq
  · intro hq
    cases q <;> first | exact hy.promoted_other rfl | cases hq

theorem Side.finish (hx : Side w p q i true) (more : Bool) : Side w (p.finish w) q i more where
  answered_dialled hq := by simpa using hx.answered_dialled hq
  init_dialled hi := by simpa using hx.init_dialled hi
  response_answered _ := hx.response_answered rfl
  init_kept _ hq := absurd (hx.response_answered rfl) (by simp [hq])
  response_kept _ ha := absurd ha (by simp)
  finished_answered _ _ := hx.response_answered rfl
  conceded_loses hp := by
    cases p <;> cases w <;> first | rfl | exact hx.conceded_loses rfl | cases hp
  keeping_wins hp := by
    cases p <;> cases w <;> first | rfl | exact hx.keeping_wins rfl | cases hp
  holding_other hp := by
    cases p <;> cases w <;> first | exact hx.holding_other rfl | cases hp
  promoted_other hp := by
    cases p <;> cases w <;> first | exact hx.promoted_other rfl | cases hp

theorem Side.finish_other (hy : Side w' q p i' r') (w : Bool) : Side w' q (p.finish w) i' r' := by
  refine hy.change_other (by simp) ?_ ?_
  · intro hq
    rcases hy.holding_other hq with rfl | rfl | rfl <;> cases w <;> simp [Phase.finish]
  · intro hq
    rw [hy.promoted_other hq]
    rfl

/-- A message under the other's own keys arrives: a side that was holding them knows that the other
keeps its own handshake. -/
theorem Side.prove (hx : Side w p q i r) (h : q.uses .own = true) : Side w p.prove q i r := by
  refine hx.change (by simp) (by simp) ?_ ?_ ?_ ?_
  · intro hp
    cases p <;> first | exact hx.conceded_loses rfl | cases hp
  · intro hp
    cases p <;> first | exact hx.keeping_wins rfl | cases hp
  · intro hp
    cases p <;> cases hp
  · intro hp
    cases p with
    | promoted => exact hx.promoted_other rfl
    | holding =>
      rcases hx.holding_other rfl with rfl | rfl | rfl
      · cases h
      · cases h
      · rfl
    | idle | dialing | answered | crossed | conceded | finished | keeping => cases hp

theorem Side.prove_other (hy : Side w' q p i' r') : Side w' q p.prove i' r' := by
  refine hy.change_other (by simp) ?_ ?_
  · intro hq
    rcases hy.holding_other hq with rfl | rfl | rfl <;> simp [Phase.prove]
  · intro hq
    rw [hy.promoted_other hq]
    rfl

end

theorem inv_of_views {winner : Bool} {o : Opening} (x : Bool)
    (hx : Side (x == winner) (o.phase x) (o.phase !x) (o.init x) (o.response x))
    (hy : Side ((!x) == winner) (o.phase !x) (o.phase x) (o.init !x) (o.response !x)) : o.Inv winner := by
  intro z
  by_cases hz : z = x
  · rw [hz]
    exact hx
  · obtain rfl : z = !x := by cases z <;> cases x <;> simp_all
    simpa using hy

theorem Move.keeps {winner : Bool} {o o' : Opening} (h : Move winner o o') (ho : o.Inv winner) :
    o'.Inv winner := by
  cases h with
  | dial x h =>
    have hx := ho x
    have hy := ho (!x)
    rw [Bool.not_not] at hy
    rw [h] at hx hy
    refine inv_of_views x ?_ ?_
    · simpa using hx.dial
    · simpa using hy.dial_other
  | resend x h =>
    have hy := ho (!x)
    refine inv_of_views x ?_ ?_
    · simpa using (ho x).resend h
    · simpa using hy
  | answer x more h =>
    have hx := ho x
    have hy := ho (!x)
    rw [Bool.not_not] at hy
    rw [h] at hx
    refine inv_of_views x ?_ ?_
    · simpa using hx.answer more
    · simpa using hx.answer_other hy
  | finish x more h =>
    have hx := ho x
    have hy := ho (!x)
    rw [h] at hx
    refine inv_of_views x ?_ ?_
    · simpa using hx.finish more
    · simpa using hy.finish_other (x == winner)
  | prove x h =>
    have hy := ho (!x)
    refine inv_of_views x ?_ ?_
    · simpa using (ho x).prove h
    · simpa using hy.prove_other

/-! ### No handshake message in flight -/

variable {w : Bool} {q : Phase}

variable {p : Phase}

theorem Side.not_awaiting (hx : Side w p q false false) : p.awaiting = false := by
  by_contra ha
  have hawaiting : p.awaiting = true := by simpa using ha
  have hdialled : p.dialled = true := by cases p <;> first | rfl | cases hawaiting
  have hanswered : q.hasAnswered = true := by
    by_contra hq
    simpa using hx.init_kept hdialled (by simpa using hq)
  simpa using hx.response_kept hanswered hawaiting

variable {l : Layout}

theorem Side.not_conceded (hx : Side w p q false false)
    (hy : Side (!w) q p false false) (hp : p = .conceded) (hq : q.layout = some l) : l.current = .own := by
  subst hp
  have hloses : w = false := hx.conceded_loses rfl
  have hdialled : q.dialled = true := hy.answered_dialled rfl
  have hnot := hy.not_awaiting
  subst hloses
  cases q with
  | conceded => simpa using hy.conceded_loses rfl
  | promoted => simpa using hy.promoted_other rfl
  | finished | holding | keeping =>
    obtain rfl := Option.some.inj hq
    rfl
  | idle | answered => cases hdialled
  | dialing | crossed => cases hnot

/-- **Each side holds the keys the other sends under.** -/
theorem Side.settled_uses (hx : Side w p q false false)
    (hy : Side (!w) q p false false) (hp : p.layout.isSome = true) (hq : q.layout = some l) :
    p.uses l.current.flip = true := by
  cases hcur : l.current with
  | own =>
    -- the other side finished a handshake, so this side answered it
    have hanswered : p.hasAnswered = true := by
      refine hy.finished_answered ?_ hy.not_awaiting
      cases q <;> first | rfl | (obtain rfl := Option.some.inj hq; cases hcur) | cases hq
    rwa [Which.flip, p.uses_theirs]
  | theirs =>
    have hdialled : p.dialled = true := by
      refine hx.answered_dialled ?_
      cases q <;> first | rfl | (obtain rfl := Option.some.inj hq; cases hcur) | cases hq
    have hnot := hx.not_awaiting
    cases p with
    | conceded =>
      have hown := hx.not_conceded hy rfl hq
      rw [hcur] at hown
      cases hown
    | finished | holding | keeping | promoted => rfl
    | idle | answered => cases hdialled
    | dialing | crossed => cases hnot

def Agree (p q : Phase) : Prop :=
  ∀ l l', p.layout = some l → q.layout = some l' → l.current = l'.current.flip

theorem Agree.symm (h : Agree p q) : Agree q p := by
  intro l l' hl hl'
  rw [h l' l hl' hl, Which.flip_flip]

theorem own_beside_theirs (hl : p.layout = some l) (hcur : l.current = .own)
    (h : p.uses .theirs = true) : p = .holding ∨ p = .keeping := by
  cases p with
  | holding => exact .inl rfl
  | keeping => exact .inr rfl
  | idle | dialing => cases hl
  | finished => cases h
  | answered | crossed | conceded | promoted =>
    obtain rfl := Option.some.inj hl
    cases hcur

theorem theirs_beside_own (hl : p.layout = some l) (hcur : l.current = .theirs)
    (h : p.uses .own = true) : p = .promoted := by
  cases p with
  | promoted => rfl
  | idle | dialing => cases hl
  | answered | crossed | conceded => cases h
  | finished | holding | keeping =>
    obtain rfl := Option.some.inj hl
    cases hcur

/-- **What is left to do.**  The sides agree already, unless one keeps its own handshake and the
other holds the keys of it. -/
theorem Side.settled_cases (hx : Side w p q false false) (hy : Side (!w) q p false false) :
    Agree p q ∨ (p = .holding ∧ q = .keeping) ∨ (p = .keeping ∧ q = .holding) := by
  by_cases hagree : Agree p q
  · exact .inl hagree
  right
  obtain ⟨l, l', hl, hl', hne⟩ : ∃ l l', p.layout = some l ∧ q.layout = some l'
      ∧ l.current ≠ l'.current.flip := by
    simpa [Agree] using hagree
  have hpu := hx.settled_uses hy (by simp [hl]) hl'
  have hqu := hy.settled_uses (by simpa using hx) (by simp [hl']) hl
  cases hcur : l'.current with
  | theirs =>
    have hcur' : l.current = .theirs := by
      cases h : l.current <;> simp_all [Which.flip]
    rw [hcur] at hpu
    -- a promoted side faces a keeping one, which sends under its own handshake
    obtain rfl := theirs_beside_own hl hcur' hpu
    obtain rfl := hx.promoted_other rfl
    obtain rfl := Option.some.inj hl'
    cases hcur
  | own =>
    have hcur' : l.current = .own := by
      cases h : l.current <;> simp_all [Which.flip]
    rw [hcur] at hpu
    rw [hcur'] at hqu
    rcases own_beside_theirs hl hcur' hpu with rfl | rfl
    · rcases own_beside_theirs hl' hcur hqu with rfl | rfl
      · simpa using hx.holding_other rfl
      · exact .inl ⟨rfl, rfl⟩
    · rcases own_beside_theirs hl' hcur hqu with rfl | rfl
      · exact .inr ⟨rfl, rfl⟩
      · have hw := hx.keeping_wins rfl
        have hw' := hy.keeping_wins rfl
        simp [hw] at hw'

/-- No handshake message is in flight and both sides have a session. -/
structure Settled (o : Opening) : Prop where
  init : ∀ x, o.init x = false
  response : ∀ x, o.response x = false
  live : ∀ x, (o.phase x).layout.isSome = true

variable {winner : Bool} {o o' : Opening}

theorem Settled.side (hs : o.Settled) (ho : o.Inv winner) (x : Bool) :
    Side (x == winner) (o.phase x) (o.phase !x) false false := by
  have hx := ho x
  rwa [hs.init, hs.response] at hx

theorem Settled.other (hs : o.Settled) (ho : o.Inv winner) (x : Bool) :
    Side (!(x == winner)) (o.phase !x) (o.phase x) false false := by
  have hy := hs.side ho (!x)
  cases x <;> cases winner <;> exact hy

theorem Settled.move (hs : o.Settled) (ho : o.Inv winner) (h : Move winner o o') :
    ∃ x, (o.phase !x).uses .own = true ∧ o' = ⟨update o.phase x (o.phase x).prove, o.init, o.response⟩ := by
  cases h with
  | dial x h => simpa [h, Phase.layout] using hs.live x
  | resend x h => simp [(hs.side ho x).not_awaiting] at h
  | answer x more h => simp [hs.init] at h
  | finish x more h => simp [hs.response] at h
  | prove x h => exact ⟨x, h, rfl⟩

theorem Settled.keeps (hs : o.Settled) (ho : o.Inv winner) (h : Move winner o o') : o'.Settled := by
  obtain ⟨x, -, rfl⟩ := hs.move ho h
  refine ⟨hs.init, hs.response, fun z => ?_⟩
  have hz := hs.live z
  by_cases hzx : z = x
  · cases hp : o.phase z <;> simp_all [Phase.layout, Phase.prove]
  · simpa [hzx] using hz

/-- Agreement is final: a side that holds keys of a handshake the other conceded never gets a message
under them. -/
theorem Settled.agree_keeps (hs : o.Settled) (ho : o.Inv winner) (h : Move winner o o')
    (hagree : ∀ x, Agree (o.phase x) (o.phase !x)) : ∀ x, Agree (o'.phase x) (o'.phase !x) := by
  obtain ⟨x, huses, rfl⟩ := hs.move ho h
  have hsame : (o.phase x).prove = o.phase x := by
    cases hp : o.phase x with
    | holding =>
      have hside := hs.side ho x
      rw [hp] at hside
      have hx := hagree x
      rw [hp] at hx
      rcases hside.holding_other rfl with hq | hq | hq
      · rw [hq] at huses
        cases huses
      · rw [hq] at huses
        cases huses
      · -- a keeping side sends under its own handshake, so the two would not agree
        rw [hq] at hx
        cases hx _ _ rfl rfl
    | idle | dialing | answered | crossed | conceded | finished | keeping | promoted => rfl
  simpa only [hsame, update_eq_self] using hagree

end Opening

end Karst.Node.OpenProtocol
