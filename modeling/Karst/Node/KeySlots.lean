import Karst.Node.Session

/-!
# The key slots

What each entry point of a session can do to the three slots that hold transport keys.  Every
invariant of the later modules is read off one classification, `KeyChange`.
-/

namespace Karst.Node

open Crypto Noise Proto Option TransportSession

variable {P : Primitives}

/-! ### Opening -/

/-- What can come of opening a message with a snapshot.  A cell that refuses the message is left as
it was, so only the cell that opened it is written. -/
inductive Inbound.OpenSpec (P : Primitives) (self : Inbound) (arena : Arena TransportSession)
    (d : Bytes) (now : ℕ) : Arena TransportSession × Except TransportError Opened → Prop
  | current {p : Bytes} (h : ((arena.cell self.current).openData P d now).2 = .ok p) :
      OpenSpec P self arena d now
        (arena.write self.current ((arena.cell self.current).openData P d now).1, .ok (.current p))
  | previous {e : TransportError} {r : Ref} {p : Bytes}
      (hcur : ((arena.cell self.current).openData P d now).2 = .error e)
      (hr : self.previous = some r) (h : ((arena.cell r).openData P d now).2 = .ok p) :
      OpenSpec P self arena d now (arena.write r ((arena.cell r).openData P d now).1, .ok (.previous p))
  | pending {e : TransportError} {r : Ref} {p : Bytes}
      (hcur : ((arena.cell self.current).openData P d now).2 = .error e)
      (hprev : ∀ q, self.previous = some q → ∃ e, ((arena.cell q).openData P d now).2 = .error e)
      (hr : self.pending = some r) (h : ((arena.cell r).openData P d now).2 = .ok p) :
      OpenSpec P self arena d now (arena.write r ((arena.cell r).openData P d now).1, .ok (.pending p))
  | refused {e : TransportError}
      (hcur : ((arena.cell self.current).openData P d now).2 = .error e)
      (hprev : ∀ q, self.previous = some q → ∃ e, ((arena.cell q).openData P d now).2 = .error e)
      (hpend : ∀ q, self.pending = some q → ∃ e, ((arena.cell q).openData P d now).2 = .error e) :
      OpenSpec P self arena d now (arena, .error e)

variable {arena : Arena TransportSession} {r : Ref} {d : Bytes} {now : ℕ}

theorem openAt_error {e : TransportError} (h : ((arena.cell r).openData P d now).2 = .error e) :
    openAt P arena r d now = (arena, .error e) := by
  simp only [openAt, openData_error h, Arena.write_cell, h]

theorem openAt_ok {p : Bytes} (h : ((arena.cell r).openData P d now).2 = .ok p) :
    openAt P arena r d now = (arena.write r ((arena.cell r).openData P d now).1, .ok p) := by
  simp only [openAt, h]

theorem openSlot_cases (P : Primitives) (arena : Arena TransportSession) (slot : Option Ref)
    (d : Bytes) (now : ℕ) : (∃ r p, slot = some r ∧ ((arena.cell r).openData P d now).2 = .ok p
      ∧ openSlot P arena slot d now = (arena.write r ((arena.cell r).openData P d now).1, some p))
    ∨ ((∀ r, slot = some r → ∃ e, ((arena.cell r).openData P d now).2 = .error e)
      ∧ openSlot P arena slot d now = (arena, none)) := by
  cases slot with
  | none => exact .inr ⟨by simp, rfl⟩
  | some r =>
    cases h : ((arena.cell r).openData P d now).2 with
    | ok p => exact .inl ⟨r, p, rfl, h, by simp only [openSlot, openAt_ok h]⟩
    | error e =>
      refine .inr ⟨?_, by simp only [openSlot, openAt_error h]⟩
      rintro q ⟨⟩
      exact ⟨e, h⟩

theorem Inbound.openWith_spec (self : Inbound) (arena : Arena TransportSession) (d : Bytes)
    (now : ℕ) : self.OpenSpec P arena d now (self.openWith P arena d now) := by
  unfold openWith
  cases hcur : ((arena.cell self.current).openData P d now).2 with
  | ok p =>
    rw [openAt_ok hcur]
    exact .current hcur
  | error e =>
    rw [openAt_error hcur]
    rcases openSlot_cases P arena self.previous d now with ⟨r, p, hr, h, heq⟩ | ⟨hprev, heq⟩
    · simp only [heq]
      exact .previous hcur hr h
    · simp only [heq]
      rcases openSlot_cases P arena self.pending d now with ⟨r, p, hr, h, heq'⟩ | ⟨hpend, heq'⟩
      · simp only [heq']
        exact .pending hcur hprev hr h
      · simp only [heq']
        exact .refused hcur hprev hpend

abbrev Later (a b : Arena TransportSession) : Prop := Arena.Extends TransportSession.Same a b

theorem Later.refl (a : Arena TransportSession) : Later a a :=
  Arena.Extends.refl Same.refl a

theorem Later.trans {a b c : Arena TransportSession} (hab : Later a b) (hbc : Later b c) :
    Later a c := Arena.Extends.trans Same.trans hab hbc

theorem later_alloc (a : Arena TransportSession) (t : TransportSession) : Later a (a.alloc t) :=
  Arena.extends_alloc Same.refl a t

theorem later_write {a : Arena TransportSession} {t : TransportSession}
    (h : Same (a.cell r) t) : Later a (a.write r t) :=
  Arena.extends_write Same.refl a h

theorem Inbound.OpenSpec.later {self : Inbound} {out : Arena TransportSession × Except TransportError Opened}
    (h : self.OpenSpec P arena d now out) : Later arena out.1 ∧ out.1.next = arena.next := by
  cases h with
  | current h => exact ⟨later_write (openData_same d now), rfl⟩
  | previous _ _ h => exact ⟨later_write (openData_same d now), rfl⟩
  | pending _ _ _ h => exact ⟨later_write (openData_same d now), rfl⟩
  | refused => exact ⟨Later.refl arena, rfl⟩

/-! ### One entry point -/

theorem Handshake.retryDue_same (hs : Handshake P) (now : ℕ) :
    hs.initiator = (hs.retryDue now).1.initiator ∧ hs.msg1 = (hs.retryDue now).1.msg1 := by
  unfold retryDue
  split <;> exact ⟨rfl, rfl⟩

/-- The current keys stay; the other two slots stay or are emptied. -/
structure Established.Thins (e e' : Established P) : Prop where
  session : e'.session = e.session
  pending : e'.pending = e.pending ∨ e'.pending = none
  previous : e'.previous = e.previous ∨ e'.previous = none

theorem Established.Thins.rekey {e e' : Established P} (h : e.Thins e')
    (rekey : Option (Handshake P)) : e.Thins { e' with rekey } := ⟨h.session, h.pending, h.previous⟩

theorem Established.Thins.refl (e : Established P) : e.Thins e := ⟨rfl, .inl rfl, .inl rfl⟩

def Inbound.Holds (inb : Inbound) (r : Ref) : Prop :=
  r = inb.current ∨ inb.pending = some r ∨ inb.previous = some r

namespace Session

def current (s : Session P) : Option Ref :=
  match s.state with
  | .established e => some e.session
  | _ => none

def waiting (s : Session P) : Option Ref :=
  match s.state with
  | .established e => e.pending
  | _ => none

/-- The message that a datagram completes, when its MAC verifies. -/
def completed (s : Session P) (datagram : Bytes) (source : SourceKey) (nowMs : ℕ) : Option Bytes :=
  match splitDatagram datagram with
  | .error _ => none
  | .ok (hdr, payload) =>
    if s.macOk hdr payload then
      match (s.reasm.push ⟨source, true, hdr, payload, nowMs⟩).2 with
      | .complete msg => some msg
      | _ => none
    else none

/-- What can happen to the current and the waiting keys when the session is given `m`, a complete
message and the time, or no message. -/
inductive KeyChange (m : Option (Bytes × ℕ)) (s s' : Session P) : Prop
  | keep (hcur : s'.current = s.current) (hwait : s'.waiting = s.waiting ∨ s'.waiting = none)
  | close (hcur : s'.current = none) (hwait : s'.waiting = none)
  /-- An init answered beside a live session. -/
  | hold (hlive : s.current ≠ none) (hcur : s'.current = s.current)
      (hwait : s'.waiting = some s.arena.next)
  /-- An init answered with nothing carrying traffic. -/
  | answer (hidle : s.current = none) (hcur : s'.current = some s.arena.next)
      (hwait : s'.waiting = none)
  /-- The message is a response that finished an own handshake. -/
  | finish {hs : Handshake P} {msg : Bytes} {keys : TransportKeys} {now : ℕ}
      (hmsg : m = some (msg, now)) (hflight : s.inFlight = some hs)
      (hfin : hs.initiator.tryFinish msg = .ok keys)
      (hcur : s'.current = some s.arena.next) (hwait : s'.waiting = s.waiting)
      (hcell : s'.arena.cell s.arena.next = TransportSession.new keys .initiator s.index now)
  /-- The message is a transport message that opened under the waiting keys. -/
  | promote {inb : Inbound} {r : Ref} {d p : Bytes} {now : ℕ} (hmsg : m = some (d, now))
      (htype : d.head? = some 0x04) (hinb : s.inbound = some inb)
      (hr : inb.pending = some r) (hopen : (inb.openWith P s.arena d now).2 = .ok (.pending p))
      (hcur : s'.current = some r) (hwait : s'.waiting = none)

/-- A handshake of `s'` was already in flight in `s`, up to its retry timer, or has just been
built. -/
def Carries (s s' : Session P) : Prop :=
  ∀ hs', s'.inFlight = some hs' →
    (∃ hs, s.inFlight = some hs ∧ hs.initiator = hs'.initiator ∧ hs.msg1 = hs'.msg1)
    ∨ ∃ now seed, (s.newHandshake now seed).2 = some hs'

/-- An address is in one of the three slots. -/
def Holds (s : Session P) (r : Ref) : Prop := ∃ inb, s.inbound = some inb ∧ inb.Holds r

/-- The slots are filled from the slots and with the cell just allocated. -/
def Reuses (s s' : Session P) : Prop :=
  ∀ r, s'.Holds r → s.Holds r ∨ (r = s.arena.next ∧ r < s'.arena.next)

/-- What one entry point can do to a session that is given `m`. -/
structure Turn (m : Option (Bytes × ℕ)) (s s' : Session P) : Prop where
  keys : s'.keys = s.keys
  peer : s'.peer = s.peer
  pskEpoch : s'.pskEpoch = s.pskEpoch
  index : s'.index = s.index
  arena : Later s.arena s'.arena
  change : KeyChange m s s'
  reuses : Reuses s s'
  carries : Carries s s'

variable {m : Option (Bytes × ℕ)} {s s' : Session P} {seed : Seed}

theorem emit_fst (s : Session P) (ty : MessageType) (msg : Bytes) (seed : Seed) :
    (s.emit ty msg seed).1 = { s with reassemblyId := deriveReassemblyId P seed } := by
  unfold emit
  dsimp only
  split <;> rfl

theorem newHandshake_fst (s : Session P) (now : ℕ) (seed : Seed) :
    (s.newHandshake now seed).1 = { s with attempt := s.attempt + 1 } := by
  unfold newHandshake
  dsimp only
  split <;> rfl

theorem newHandshake_with (s : Session P) (st : State P) (reasm : Reassembler) (now : ℕ) (seed : Seed) :
    ({ s with state := st, reasm }.newHandshake now seed).2 = (s.newHandshake now seed).2 := by
  unfold newHandshake
  dsimp only
  split <;> rfl

theorem Carries.of_eq (h : s'.inFlight = s.inFlight) : Carries s s' := by
  intro hs' hs'eq
  exact .inl ⟨hs', h.symm.trans hs'eq, rfl, rfl⟩

theorem Carries.of_none (h : s'.inFlight = none) : Carries s s' := by
  intro hs' hs'eq
  rw [h] at hs'eq
  cases hs'eq

variable {hs : Handshake P}

theorem Carries.of_new (h : (s.newHandshake now seed).2 = some hs)
    (h' : s'.inFlight = some hs) : Carries s s' := by
  intro hs' hs'eq
  obtain rfl : hs = hs' := by simpa [h'] using hs'eq
  exact .inr ⟨now, seed, h⟩

theorem Carries.of_retry (h : s.inFlight = some hs)
    (h' : s'.inFlight = some (hs.retryDue now).1) : Carries s s' := by
  intro hs' hs'eq
  obtain rfl : (hs.retryDue now).1 = hs' := by simpa [h'] using hs'eq
  exact .inl ⟨hs, h, hs.retryDue_same now⟩

variable {e : Established P}

theorem holds_of_established (h : s.state = .established e) (r : Ref) :
    s.Holds r ↔ r = e.session ∨ e.pending = some r ∨ e.previous = some r := by
  have hinb : s.inbound = some ⟨e.session, e.pending, e.previous⟩ := by simp only [inbound, h]
  simp [Holds, Inbound.Holds, hinb]

theorem Reuses.refl (s : Session P) : Reuses s s := fun _ hr => .inl hr

theorem Reuses.of_eq (h : s'.inbound = s.inbound) : Reuses s s' := by
  intro r hr
  left
  rwa [Holds, ← h]

theorem Reuses.of_none (h : s'.inbound = none) : Reuses s s' := by
  rintro r ⟨inb, hinb, -⟩
  rw [h] at hinb
  cases hinb

variable {e' : Established P}

theorem Reuses.of_slots (h' : s'.state = .established e')
    (hslot : ∀ r, r = e'.session ∨ e'.pending = some r ∨ e'.previous = some r →
      s.Holds r ∨ (r = s.arena.next ∧ r < s'.arena.next)) : Reuses s s' := by
  intro r hr
  exact hslot r ((holds_of_established h' r).mp hr)

theorem Turn.same (hk : s'.keys = s.keys) (hp : s'.peer = s.peer) (he : s'.pskEpoch = s.pskEpoch)
    (hi : s'.index = s.index) (ha : s'.arena = s.arena) (hc : KeyChange m s s') (hr : Reuses s s')
    (hf : Carries s s') : Turn m s s' :=
  ⟨hk, hp, he, hi, ha ▸ Later.refl _, hc, hr, hf⟩

theorem Turn.refl (s : Session P) : Turn m s s :=
  .same rfl rfl rfl rfl rfl (.keep rfl (.inl rfl)) (.refl s) (.of_eq rfl)

/-- The parts of a session that say what became of its keys. -/
structure SameSlots (s t : Session P) : Prop where
  state : t.state = s.state
  arena : t.arena = s.arena
  index : t.index = s.index

variable {t : Session P}

theorem KeyChange.congr {t' : Session P} (h : KeyChange m s t) (hs : SameSlots s s')
    (ht : SameSlots t t') : KeyChange m s' t' := by
  have hcur' : t'.current = t.current := by simp only [current, ht.state]
  have hwait' : t'.waiting = t.waiting := by simp only [waiting, ht.state]
  have hcur : s'.current = s.current := by simp only [current, hs.state]
  have hwait : s'.waiting = s.waiting := by simp only [waiting, hs.state]
  cases h with
  | keep h1 h2 => exact .keep (by rw [hcur', hcur, h1]) (by rwa [hwait', hwait])
  | close h1 h2 => exact .close (hcur'.trans h1) (hwait'.trans h2)
  | hold h1 h2 h3 =>
    exact .hold (by rwa [hcur]) (by rw [hcur', hcur, h2]) (by rw [hwait', hs.arena, h3])
  | answer h1 h2 h3 => exact .answer (hcur.trans h1) (by rw [hcur', hs.arena, h2]) (hwait'.trans h3)
  | finish h0 h1 h2 h3 h4 h5 =>
    have hflight : s'.inFlight = s.inFlight := by simp only [inFlight, hs.state]
    exact .finish h0 (hflight.trans h1) h2 (by rw [hcur', hs.arena, h3]) (by rw [hwait', hwait, h4])
      (by rw [ht.arena, hs.arena, hs.index, h5])
  | promote h0 ht h1 h2 h3 h4 h5 =>
    have hinb : s'.inbound = s.inbound := by simp only [inbound, hs.state]
    exact .promote h0 ht (hinb.trans h1) h2 (by rw [hs.arena, h3]) (hcur'.trans h4) (hwait'.trans h5)

theorem Turn.emit (h : Turn m s t) (ty : MessageType) (msg : Bytes) (seed : Seed) :
    Turn m s (t.emit ty msg seed).1 := by
  rw [emit_fst]
  exact ⟨h.keys, h.peer, h.pskEpoch, h.index, h.arena,
    h.change.congr ⟨rfl, rfl, rfl⟩ ⟨rfl, rfl, rfl⟩, h.reuses, h.carries⟩

theorem Turn.of_reasm {reasm : Reassembler} (h : Turn m { s with reasm } s') : Turn m s s' := by
  refine ⟨h.keys, h.peer, h.pskEpoch, h.index, h.arena,
    h.change.congr ⟨rfl, rfl, rfl⟩ ⟨rfl, rfl, rfl⟩, h.reuses, fun hs' hs'eq => ?_⟩
  rcases h.carries hs' hs'eq with hold | ⟨now, seed, hnew⟩
  · exact .inl hold
  · exact .inr ⟨now, seed, (newHandshake_with s s.state reasm now seed).symm.trans hnew⟩

/-! ### Dialling and timers -/

theorem connect_turn : Turn none s (s.connect now seed).1 := by
  unfold connect
  split
  next hidle =>
    have hnew := newHandshake_fst s now seed
    unfold startHandshake
    split
    next t heq =>
      obtain rfl : t = _ := (congrArg Prod.fst heq).symm.trans hnew
      exact .same rfl rfl rfl rfl rfl (.keep rfl (.inl rfl)) (.of_eq rfl) (.of_eq rfl)
    next t hs heq =>
      obtain rfl : t = _ := (congrArg Prod.fst heq).symm.trans hnew
      have hflight : (s.newHandshake now seed).2 = some hs := congrArg Prod.snd heq
      have hturn : Turn none s { s with attempt := s.attempt + 1, state := .handshaking hs } :=
        .same rfl rfl rfl rfl rfl (.close rfl rfl) (.of_none rfl) (.of_new hflight rfl)
      exact hturn.emit ..
  next => exact Turn.refl s

theorem pollHandshaking_turn (h : s.state = .handshaking hs) :
    Turn none s (s.pollHandshaking hs now seed).1 := by
  have hflight : s.inFlight = some hs := by simp only [inFlight, h]
  unfold pollHandshaking
  split
  · exact .same rfl rfl rfl rfl rfl (.close rfl rfl) (.of_none rfl) (.of_none rfl)
  · have hturn : Turn none s { s with state := .handshaking (hs.retryDue now).1 } :=
      .same rfl rfl rfl rfl rfl (.close rfl rfl) (.of_none rfl) (.of_retry hflight rfl)
    dsimp only
    split
    · exact hturn.emit ..
    · exact hturn

theorem unexpired_cases (s : Session P) (now : ℕ) (slot : Option Ref) :
    s.unexpired now slot = slot ∨ s.unexpired now slot = none := by
  cases slot with
  | none => exact .inl rfl
  | some r =>
    unfold unexpired
    rw [filter_some]
    split
    · exact .inl rfl
    · exact .inr rfl

theorem KeyChange.of_thins (h : s.state = .established e) (h' : s'.state = .established e')
    (ht : e.Thins e') : KeyChange m s s' := by
  refine .keep ?_ ?_
  · simp only [current, h, h', ht.session]
  · simpa only [waiting, h, h'] using ht.pending

theorem Reuses.of_thins (h : s.state = .established e) (h' : s'.state = .established e')
    (ht : e.Thins e') : Reuses s s' := by
  refine Reuses.of_slots h' fun r hr => .inl ((holds_of_established h r).mpr ?_)
  rcases hr with hr | hr | hr
  · exact .inl (hr.trans ht.session)
  · rcases ht.pending with hp | hp
    · exact .inr (.inl (hp.symm.trans hr))
    · rw [hp] at hr
      cases hr
  · rcases ht.previous with hp | hp
    · exact .inr (.inr (hp.symm.trans hr))
    · rw [hp] at hr
      cases hr

theorem pollRekey_turn (h : s.state = .established e) (ht : e.Thins e') (hrekey : e.rekey = some hs) :
    Turn none s (s.pollRekey e' hs now seed).1 := by
  have hflight : s.inFlight = some hs := by simp only [inFlight, h, hrekey]
  unfold pollRekey
  split
  · exact .same rfl rfl rfl rfl rfl (.of_thins h rfl (ht.rekey _)) (.of_thins h rfl (ht.rekey _))
      (.of_none rfl)
  · have hturn : Turn none s { s with
        state := .established { e' with rekey := some (hs.retryDue now).1 } } :=
      .same rfl rfl rfl rfl rfl (.of_thins h rfl (ht.rekey _)) (.of_thins h rfl (ht.rekey _))
        (.of_retry hflight rfl)
    dsimp only
    split
    · exact hturn.emit ..
    · exact hturn

theorem pollIdleRekey_turn (h : s.state = .established e) (ht : e.Thins e') (hrekey : e'.rekey = none) :
    Turn none s (s.pollIdleRekey e' now seed).1 := by
  have hnew := newHandshake_fst { s with state := .established e' } now seed
  have hnone : Turn none s { s with state := .established e' } :=
    .same rfl rfl rfl rfl rfl (.of_thins h rfl ht) (.of_thins h rfl ht) (.of_none hrekey)
  unfold pollIdleRekey
  dsimp only
  split
  · split
    next t heq =>
      obtain rfl : t = _ := (congrArg Prod.fst heq).symm.trans hnew
      exact .same rfl rfl rfl rfl rfl (.of_thins h rfl ht) (.of_thins h rfl ht) (.of_none hrekey)
    next t hs heq =>
      obtain rfl : t = _ := (congrArg Prod.fst heq).symm.trans hnew
      have hflight : (s.newHandshake now seed).2 = some hs :=
        (newHandshake_with s _ _ now seed).symm.trans (congrArg Prod.snd heq)
      have hturn : Turn none s { s with
          attempt := s.attempt + 1
          state := .established { e' with rekey := some hs } } :=
        .same rfl rfl rfl rfl rfl (.of_thins h rfl (ht.rekey _)) (.of_thins h rfl (ht.rekey _))
          (.of_new hflight rfl)
      exact hturn.emit ..
  · exact hnone

theorem poll_turn : Turn none s (s.poll now seed).1 := by
  unfold poll
  split
  next => exact Turn.refl s
  next hs h => exact pollHandshaking_turn h
  next e h =>
    unfold pollEstablished
    split
    · exact .same rfl rfl rfl rfl rfl (.close rfl rfl) (.of_none rfl) (.of_none rfl)
    · have ht : e.Thins { e with
          pending := s.unexpired now e.pending
          previous := s.unexpired now e.previous } :=
        ⟨rfl, s.unexpired_cases now e.pending, s.unexpired_cases now e.previous⟩
      dsimp only
      split
      next hs hrekey => exact pollRekey_turn h ht hrekey
      next hrekey => exact pollIdleRekey_turn h ht hrekey

/-! ### Inbound messages -/

variable {inb : Inbound}

theorem inbound_eq_some (h : s.inbound = some inb) :
    ∃ e, s.state = .established e ∧ inb = ⟨e.session, e.pending, e.previous⟩ := by
  unfold inbound at h
  split at h
  next e he =>
    simp only [some.injEq] at h
    exact ⟨e, he, h.symm⟩
  next => cases h

theorem dropRekey_turn : Turn m s s.dropRekey := by
  unfold dropRekey
  split
  next e h =>
    have ht := (Established.Thins.refl e).rekey none
    exact .same rfl rfl rfl rfl rfl (.of_thins h rfl ht) (.of_thins h rfl ht) (.of_none rfl)
  next => exact Turn.refl s

theorem install_turn {msg : Bytes} {keys : TransportKeys} (hflight : s.inFlight = some hs)
    (hfin : hs.initiator.tryFinish msg = .ok keys) : Turn (some (msg, now)) s (s.install keys now) := by
  have hwait : (s.install keys now).waiting = s.waiting := by
    unfold install waiting
    cases s.state <;> rfl
  refine ⟨rfl, rfl, rfl, rfl, later_alloc _ _, ?_, ?_, .of_none rfl⟩
  · exact .finish rfl hflight hfin rfl hwait (Arena.alloc_cell_self _ _)
  · refine .of_slots rfl fun r hr => ?_
    cases h : s.state with
    | established e =>
      rw [holds_of_established h]
      rcases hr with hr | hr | hr
      · exact .inr ⟨hr, hr ▸ Nat.lt_succ_self _⟩
      · exact .inl (.inr (.inl (by simpa [h] using hr)))
      · exact .inl (.inl (by simpa [h] using hr.symm))
    | idle =>
      rcases hr with hr | hr | hr
      · exact .inr ⟨hr, hr ▸ Nat.lt_succ_self _⟩
      · simp [h] at hr
      · simp [h] at hr
    | handshaking hs =>
      rcases hr with hr | hr | hr
      · exact .inr ⟨hr, hr ▸ Nat.lt_succ_self _⟩
      · simp [h] at hr
      · simp [h] at hr

theorem handleResponse_turn : Turn (some (d, now)) s (s.handleResponse d now).1 := by
  unfold handleResponse
  split
  next => exact Turn.refl s
  next hs hflight =>
    split
    next => exact Turn.refl s
    next keys hfin =>
      split
      · exact dropRekey_turn
      · exact install_turn hflight hfin

theorem promote_inbound (h : s.state = .established e)
    (hinb : inb = ⟨e.session, e.pending, e.previous⟩) (hr : inb.pending = some r) (hne : e.session ≠ r) :
    s.promote inb = { s with state := .established ⟨r, false, none, none, some e.session⟩ } := by
  subst hinb
  have hpending : e.pending = some r := hr
  simp [promote, h, hpending, hne]

theorem promote_self (hr : inb.pending = some r) (hcur : s.current = some r) : s.promote inb = s := by
  unfold promote
  split
  next q e hq he =>
    have hq' : q = r := by simpa [hr] using hq.symm
    have he' : e.session = r := by simpa [current, he] using hcur
    rw [if_pos (he'.trans hq'.symm)]
  next => rfl

theorem handleTransport_turn (htype : d.head? = some 0x04) :
    Turn (some (d, now)) s (s.handleTransport d now).1 := by
  unfold handleTransport
  split
  next => exact Turn.refl s
  next inb hinb =>
    obtain ⟨e, he, rfl⟩ := inbound_eq_some hinb
    have hspec := Inbound.openWith_spec (P := P) ⟨e.session, e.pending, e.previous⟩ s.arena d now
    have hlater := hspec.later.1
    -- the windows moved, nothing else
    have hkeep : ∀ arena, Later s.arena arena → Turn (some (d, now)) s { s with arena } :=
      fun arena h => ⟨rfl, rfl, rfl, rfl, h, .keep rfl (.inl rfl), .of_eq rfl, .of_eq rfl⟩
    generalize hout : Inbound.openWith P ⟨e.session, e.pending, e.previous⟩ s.arena d now = out
      at hspec hlater
    cases hspec with
    | current h => exact hkeep _ hlater
    | previous _ _ h => exact hkeep _ hlater
    | @pending err r p hcur hprev hr h =>
      let t : Session P := { s with arena := s.arena.write r ((s.arena.cell r).openData P d now).1 }
      have he' : t.state = .established e := he
      show Turn _ s (t.promote _)
      by_cases hne : e.session = r
      · rw [promote_self hr (by simp only [current, he', hne])]
        exact hkeep _ hlater
      · rw [promote_inbound he' rfl hr hne]
        refine ⟨rfl, rfl, rfl, rfl, hlater, ?_, ?_, .of_none rfl⟩
        · exact .promote rfl htype hinb hr (congrArg Prod.snd hout) rfl rfl
        · refine .of_slots rfl fun q hq => .inl ((holds_of_established he q).mpr ?_)
          rcases hq with hq | hq | hq
          · exact .inr (.inl (hq ▸ hr))
          · cases hq
          · exact .inl (some.inj hq).symm
    | @refused err hcur hprev hpend =>
      cases err with
      | expired => exact .same rfl rfl rfl rfl rfl (.close rfl rfl) (.of_none rfl) (.of_none rfl)
      | malformed => exact hkeep _ hlater
      | authenticationFailed => exact hkeep _ hlater
      | replay => exact hkeep _ hlater

theorem deliver_turn {msg : Bytes} : Turn (some (msg, now)) s (s.deliver msg now).1 := by
  unfold deliver
  split
  next => exact handleResponse_turn
  next htype => exact handleTransport_turn htype
  next => exact Turn.refl s

theorem handle_turn {source : SourceKey} :
    Turn ((s.completed d source now).map (·, now)) s (s.handle d source now).1 := by
  unfold handle completed
  cases hsplit : splitDatagram d with
  | error _ => exact Turn.refl s
  | ok parts =>
    obtain ⟨hdr, payload⟩ := parts
    by_cases hmac : s.macOk hdr payload
    · simp only [hmac, if_true]
      rcases hpush : s.reasm.push ⟨source, true, hdr, payload, now⟩ with ⟨reasm, acc⟩
      cases acc with
      | complete msg => exact (deliver_turn (s := { s with reasm })).of_reasm
      | _ => exact (Turn.refl { s with reasm }).of_reasm
    · simp only [hmac]
      exact Turn.refl s

/-! ### Sending and answering -/

theorem send_turn {payload : Bytes} : Turn none s (s.send payload now).1 := by
  unfold send
  split
  next e h =>
    have hlater := later_write (a := s.arena) (r := e.session) (sealData_same (P := P) payload now)
    dsimp only
    split <;> exact ⟨rfl, rfl, rfl, rfl, hlater, .keep rfl (.inl rfl), .of_eq rfl, .of_eq rfl⟩
  next => exact Turn.refl s

theorem adoptResponder_fst (s : Session P) (init : Bytes) (keys : TransportKeys) (msg2 : Bytes)
    (now : ℕ) (seed : Seed) : (s.adoptResponder init keys msg2 now seed).1 = { s with
      answered := some (init, msg2)
      reassemblyId := deriveReassemblyId P seed
      arena := s.arena.alloc (TransportSession.new keys .responder s.index now)
      state := match s.state with
        | .established e => .established { e with pending := some s.arena.next }
        | .handshaking hs => .established ⟨s.arena.next, false, some hs, none, none⟩
        | .idle => .established ⟨s.arena.next, false, none, none, none⟩ } := by
  unfold adoptResponder
  simp only [emit_fst]
  cases s.state <;> rfl

theorem adoptResponder_turn {init msg2 : Bytes} {keys : TransportKeys} :
    Turn none s (s.adoptResponder init keys msg2 now seed).1 := by
  rw [adoptResponder_fst]
  refine ⟨rfl, rfl, rfl, rfl, later_alloc _ _, ?_, ?_, ?_⟩
  · cases h : s.state with
    | idle => exact .answer (by simp only [current, h]) rfl rfl
    | handshaking hs => exact .answer (by simp only [current, h]) rfl rfl
    | established e => exact .hold (by simp [current, h]) (by simp only [current, h]) rfl
  · cases h : s.state with
    | idle =>
      refine .of_slots rfl fun r hr => .inr ?_
      obtain rfl : r = s.arena.next := by simpa using hr
      exact ⟨rfl, Nat.lt_succ_self _⟩
    | handshaking hs =>
      refine .of_slots rfl fun r hr => .inr ?_
      obtain rfl : r = s.arena.next := by simpa using hr
      exact ⟨rfl, Nat.lt_succ_self _⟩
    | established e =>
      refine .of_slots rfl fun r hr => ?_
      rw [holds_of_established h]
      rcases hr with hr | hr | hr
      · exact .inl (.inl hr)
      · obtain rfl : s.arena.next = r := some.inj hr
        exact .inr ⟨rfl, Nat.lt_succ_self _⟩
      · exact .inl (.inr (.inr hr))
  · cases h : s.state with
    | idle => exact .of_none rfl
    | handshaking hs => exact .of_eq (by simp only [inFlight, h])
    | established e => exact .of_eq (by simp only [inFlight, h])

theorem repeatResponse_fst (s : Session P) (init : Bytes) (seed : Seed) : (s.repeatResponse init seed).1 = s
      ∨ (s.repeatResponse init seed).1 = { s with reassemblyId := deriveReassemblyId P seed } := by
  unfold repeatResponse
  split
  next => exact .inl rfl
  next answered response _ =>
    split
    · exact .inl rfl
    · exact .inr (emit_fst s .handshakeResponse response seed)

theorem repeatResponse_turn {init : Bytes} : Turn none s (s.repeatResponse init seed).1 := by
  rcases repeatResponse_fst s init seed with h | h
  · rw [h]
    exact Turn.refl s
  · rw [h]
    exact .same rfl rfl rfl rfl rfl (.keep rfl (.inl rfl)) (.of_eq rfl) (.of_eq rfl)

theorem repeatResponse_none {init : Bytes} (h : s.repeatResponse init seed = (t, none)) : t = s := by
  unfold repeatResponse at h
  split at h
  next => exact (congrArg Prod.fst h).symm
  next =>
    split at h
    · exact (congrArg Prod.fst h).symm
    · simp at h

theorem respondTo_turn {rand : ResponderRandomness} : Turn none s (s.respondTo d rand now).1 := by
  unfold respondTo
  dsimp only
  split
  next t actions heq =>
    have h : Turn none s (s.repeatResponse d (seedFromResponderRandomness P rand)).1 :=
      repeatResponse_turn
    rwa [heq] at h
  next t heq =>
    obtain rfl := repeatResponse_none heq
    split
    next => exact Turn.refl t
    next msg2 pending _ => exact adoptResponder_turn

/-! ### Adopting proven keys -/

theorem promote_cases (s : Session P) (inb : Inbound) :
    s.promote inb = s ∨ ∃ r e waiting, inb.pending = some r ∧ s.state = .established e
      ∧ e.session ≠ r ∧ waiting = (if e.pending = some r then none else e.pending) ∧ s.promote inb
        = { s with state := .established ⟨r, false, none, waiting, some e.session⟩ } := by
  unfold promote
  split
  next r e hr he =>
    split
    · exact .inl rfl
    next hne => exact .inr ⟨r, e, _, hr, he, hne, rfl, rfl⟩
  next => exact .inl rfl

/-! ### Allocated addresses -/

def WellFormed (s : Session P) : Prop := ∀ r, s.Holds r → r < s.arena.next

theorem Turn.wellFormed (h : Turn m s s') (hs : s.WellFormed) : s'.WellFormed := by
  intro r hr
  rcases h.reuses r hr with hold | ⟨-, hlt⟩
  · exact Nat.lt_of_lt_of_le (hs r hold) h.arena.next_le
  · exact hlt

theorem new_wellFormed (keys : StaticKeys P) (peer : PeerPublic P) (epoch index : UInt32) :
    (Session.new keys peer epoch index).WellFormed := by
  rintro r ⟨inb, hinb, -⟩
  cases hinb

end Session

end Karst.Node
