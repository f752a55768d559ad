import Karst.Foundations.Runs
import Karst.Node.KeySlots

/-!
# Receivers beside a session

A daemon's receivers share one session: each takes a snapshot of the inbound keys under the lock,
opens a datagram with it outside, and answers `Opened::Pending` with `promote`.  `Shared` is the
session with the snapshots taken from it, and a run is any interleaving of receivers and entry
points.
-/

namespace Karst.Node

open Crypto Noise Proto Runs Session

variable {P : Primitives}

/-- A snapshot, and whether opening a message with it returned `Opened::Pending`. -/
structure Receiver where
  inbound : Inbound
  proven : Bool

/-- One thing that can happen to a session and its receivers. -/
inductive Event where
  | connect (nowMs : ℕ) (seed : Seed)
  | poll (nowMs : ℕ) (seed : Seed)
  | handle (datagram : Bytes) (source : SourceKey) (nowMs : ℕ)
  | deliver (msg : Bytes) (nowMs : ℕ)
  | send (payload : Bytes) (nowMs : ℕ)
  | adoptResponder (init : Bytes) (keys : TransportKeys) (msg2 : Bytes) (nowMs : ℕ) (seed : Seed)
  | repeatResponse (init : Bytes) (seed : Seed)
  | respondTo (datagram : Bytes) (rand : ResponderRandomness) (nowMs : ℕ)
  | snapshot
  | openWith (k : ℕ) (datagram : Bytes) (nowMs : ℕ)
  | promote (k : ℕ)

/-- The complete message that an event gives the session, with the time. -/
def Event.message (s : Session P) : Event → Option (Bytes × ℕ)
  | .handle d source now => (s.completed d source now).map (·, now)
  | .deliver msg now => some (msg, now)
  | _ => none

/-- A session and the snapshots taken from it, oldest first. -/
structure Shared (P : Primitives) where
  session : Session P
  receivers : List Receiver

def Opened.isPending : Opened → Bool
  | .pending _ => true
  | _ => false

namespace Shared

def new (keys : StaticKeys P) (peer : PeerPublic P) (pskEpoch index : UInt32) : Shared P :=
  ⟨Session.new keys peer pskEpoch index, []⟩

/-- Receiver `k` opens a datagram and remembers whether that proved its waiting keys. -/
def openBy (w : Shared P) (k : ℕ) (datagram : Bytes) (nowMs : ℕ) : Shared P :=
  match w.receivers[k]? with
  | none => w
  | some rc =>
    let (arena, result) := rc.inbound.openWith P w.session.arena datagram nowMs
    let proven := match result with
      | .ok opened => rc.proven || opened.isPending
      | .error _ => rc.proven
    ⟨{ w.session with arena }, w.receivers.set k ⟨rc.inbound, proven⟩⟩

def step (w : Shared P) : Event → Shared P
  | .connect now seed => { w with session := (w.session.connect now seed).1 }
  | .poll now seed => { w with session := (w.session.poll now seed).1 }
  | .handle d source now => { w with session := (w.session.handle d source now).1 }
  | .deliver msg now => { w with session := (w.session.deliver msg now).1 }
  | .send payload now => { w with session := (w.session.send payload now).1 }
  | .adoptResponder init keys msg2 now seed =>
    { w with session := (w.session.adoptResponder init keys msg2 now seed).1 }
  | .repeatResponse init seed => { w with session := (w.session.repeatResponse init seed).1 }
  | .respondTo d rand now => { w with session := (w.session.respondTo d rand now).1 }
  | .snapshot => { w with receivers := w.receivers ++ (w.session.inbound.map (⟨·, false⟩)).toList }
  | .openWith k d now => w.openBy k d now
  | .promote k =>
    match w.receivers[k]? with
    | none => w
    | some rc => { w with session := w.session.promote rc.inbound }

def current (w : Shared P) : Option Ref := w.session.current

/-- What an event does: a turn of the session, or a snapshot's keys made current. -/
inductive Effect (w : Shared P) (e : Event) (w' : Shared P) : Prop
  | turn (h : w.session.Turn (e.message w.session) w'.session)
  | reinstate {k : ℕ} {rc : Receiver} {r : Ref} {est : Established P} {waiting : Option Ref}
      (he : e = .promote k) (hrc : w.receivers[k]? = some rc) (hr : rc.inbound.pending = some r)
      (hest : w.session.state = .established est) (hne : est.session ≠ r)
      (hwaiting : waiting = if est.pending = some r then none else est.pending)
      (hsession : w'.session = { w.session with
        state := .established ⟨r, false, none, waiting, some est.session⟩ })

theorem openBy_turn (w : Shared P) (k : ℕ) (d : Bytes) (now : ℕ) :
    w.session.Turn none (w.openBy k d now).session := by
  unfold openBy
  split
  next => exact Turn.refl _
  next rc _ =>
    have hlater := (Inbound.openWith_spec (P := P) rc.inbound w.session.arena d now).later.1
    exact ⟨rfl, rfl, rfl, rfl, hlater, .keep rfl (.inl rfl), .of_eq rfl, .of_eq rfl⟩

theorem step_cases (w : Shared P) (e : Event) : Effect w e (w.step e) := by
  cases e with
  | connect now seed => exact .turn connect_turn
  | poll now seed => exact .turn poll_turn
  | handle d source now => exact .turn handle_turn
  | deliver msg now => exact .turn deliver_turn
  | send payload now => exact .turn send_turn
  | adoptResponder init keys msg2 now seed => exact .turn adoptResponder_turn
  | repeatResponse init seed => exact .turn repeatResponse_turn
  | respondTo d rand now => exact .turn respondTo_turn
  | snapshot => exact .turn (Turn.refl _)
  | openWith k d now => exact .turn (w.openBy_turn k d now)
  | promote k =>
    cases hrc : w.receivers[k]? with
    | none =>
      have hstep : w.step (.promote k) = w := by simp only [step, hrc]
      rw [hstep]
      exact .turn (Turn.refl _)
    | some rc =>
      have hstep : (w.step (.promote k)).session = w.session.promote rc.inbound := by
        simp only [step, hrc]
      rcases w.session.promote_cases rc.inbound with h | ⟨r, est, waiting, hr, hest, hne, hw, h⟩
      · refine .turn ?_
        rw [hstep, h]
        exact Turn.refl _
      · exact .reinstate rfl hrc hr hest hne hw (hstep.trans h)

/-! ### Allocated addresses -/

/-- The slots and the snapshots hold allocated addresses. -/
structure WellFormed (w : Shared P) : Prop where
  session : w.session.WellFormed
  receivers : ∀ rc ∈ w.receivers, ∀ r, rc.inbound.Holds r → r < w.session.arena.next

theorem new_wellFormed (keys : StaticKeys P) (peer : PeerPublic P) (epoch index : UInt32) :
    (new keys peer epoch index).WellFormed :=
  ⟨Session.new_wellFormed keys peer epoch index, by simp [new]⟩

theorem step_later (w : Shared P) (e : Event) : Later w.session.arena (w.step e).session.arena := by
  cases w.step_cases e with
  | turn h => exact h.arena
  | reinstate _ _ _ _ _ _ hsession =>
    rw [hsession]
    exact Later.refl _

/-- The event opens a message with a snapshot, under the keys that wait in it. -/
inductive Opens (w : Shared P) (inb : Inbound) : Event → Prop
  /-- A receiver opens it with the snapshot it took. -/
  | receiver {k : ℕ} {rc : Receiver} {d p : Bytes} {now : ℕ} (hrc : w.receivers[k]? = some rc)
      (hinb : rc.inbound = inb) (hopen : (inb.openWith P w.session.arena d now).2 = .ok (.pending p)) :
      Opens w inb (.openWith k d now)
  /-- The session itself opens a transport message that it is given. -/
  | session {e : Event} {d p : Bytes} {now : ℕ} (hmsg : e.message w.session = some (d, now))
      (htype : d.head? = some 0x04) (hinb : w.session.inbound = some inb)
      (hopen : (inb.openWith P w.session.arena d now).2 = .ok (.pending p)) : Opens w inb e

theorem mem_step_receivers {w : Shared P} {e : Event} {rc : Receiver} (h : rc ∈ (w.step e).receivers) :
    (∃ rc' ∈ w.receivers, rc'.inbound = rc.inbound
        ∧ (rc.proven = true → rc'.proven = true ∨ w.Opens rc.inbound e))
      ∨ (w.session.inbound = some rc.inbound ∧ rc.proven = false) := by
  cases e with
  | snapshot =>
    rcases List.mem_append.mp h with h | h
    · exact .inl ⟨rc, h, rfl, .inl⟩
    · obtain ⟨inb, hinb, rfl⟩ : ∃ inb, w.session.inbound = some inb ∧ ⟨inb, false⟩ = rc := by
        simpa using h
      exact .inr ⟨hinb, rfl⟩
  | openWith k d now =>
    left
    simp only [step, openBy] at h
    split at h
    next => exact ⟨rc, h, rfl, .inl⟩
    next rc' hrc' =>
      rcases List.mem_or_eq_of_mem_set h with h | rfl
      · exact ⟨rc, h, rfl, .inl⟩
      · refine ⟨rc', List.mem_of_getElem? hrc', rfl, fun hproven => ?_⟩
        split at hproven
        next opened hopened =>
          cases opened with
          | pending p => exact .inr (.receiver hrc' rfl hopened)
          | current p => exact .inl (by simpa [Opened.isPending] using hproven)
          | previous p => exact .inl (by simpa [Opened.isPending] using hproven)
        next => exact .inl hproven
  | promote k =>
    left
    simp only [step] at h
    split at h <;> exact ⟨rc, h, rfl, .inl⟩
  | connect | poll | handle | deliver | send | adoptResponder | repeatResponse | respondTo =>
    exact .inl ⟨rc, h, rfl, .inl⟩

theorem step_wellFormed (w : Shared P) (e : Event) (hw : w.WellFormed) : (w.step e).WellFormed := by
  have hle := (w.step_later e).next_le
  refine ⟨?_, ?_⟩
  · cases w.step_cases e with
    | turn h => exact h.wellFormed hw.session
    | @reinstate k rc r est waiting he hrc hr hest hne hwaiting hsession =>
      have hheld := holds_of_established hest
      rw [hsession]
      intro q hq
      rcases (holds_of_established rfl q).mp hq with rfl | hq | hq
      · exact hw.receivers rc (List.mem_of_getElem? hrc) _ (.inr (.inl hr))
      · have hpend : est.pending = some q := by
          rw [hwaiting] at hq
          split at hq
          · cases hq
          · exact hq
        exact hw.session q ((hheld q).mpr (.inr (.inl hpend)))
      · exact hw.session q ((hheld q).mpr (.inl (Option.some.inj hq).symm))
  · intro rc hrc r hr
    refine Nat.lt_of_lt_of_le ?_ hle
    rcases mem_step_receivers hrc with ⟨rc', hrc', hinb, -⟩ | ⟨hinb, -⟩
    · exact hw.receivers rc' hrc' r (by rwa [hinb])
    · exact hw.session r ⟨rc.inbound, hinb, hr⟩

theorem run_wellFormed {w : Shared P} (hw : w.WellFormed) (evs : List Event) :
    (run step w evs).WellFormed := run_induction step_wellFormed hw evs

theorem next_not_past {w : Shared P} (hw : w.WellFormed) {evs : List Event} {r : Ref}
    (hr : (run step w evs).session.arena.next ≤ r) : ¬ Past step w evs fun t => t.current = some r := by
  refine not_past_of_fresh (fun t => { r | r < t.session.arena.next }) step_wellFormed
    ?_ ?_ hw (by simpa using hr)
  · intro t q ht hq
    obtain ⟨est, hest, rfl⟩ : ∃ est, t.session.state = .established est ∧ est.session = q := by
      unfold current Session.current at hq
      split at hq
      next est hest => exact ⟨est, hest, Option.some.inj hq⟩
      next => cases hq
    exact ht.session _ ((holds_of_established hest _).mpr (.inl rfl))
  · intro t e q hq
    exact Nat.lt_of_lt_of_le hq (t.step_later e).next_le

end Shared

end Karst.Node
