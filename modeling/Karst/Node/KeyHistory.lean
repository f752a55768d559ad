import Karst.Noise.KeyAgreement
import Karst.Node.Receivers

/-!
# The history of a session's keys

Which keys a session has sent under, in every interleaving of entry points and receivers.
-/

namespace Karst.Node

open Crypto Noise Proto Runs Option Session
open List hiding Vector

variable {P : Primitives} {w : Shared P}

namespace Shared

variable {r : Ref}

theorem current_lt (hw : w.WellFormed) (h : w.current = some r) : r < w.session.arena.next := by
  have hpast : Past step w [] fun t => t.current = some r := past_last h
  by_contra hle
  exact next_not_past hw (Nat.le_of_not_lt hle) hpast

theorem waiting_held {s : Session P} (h : s.waiting = some r) : s.Holds r := by
  unfold waiting at h
  split at h
  next est hest => exact (holds_of_established hest r).mpr (.inr (.inl h))
  next => cases h

variable {e : Event}

theorem step_waiting (h : (w.step e).session.waiting = some r) :
    w.session.waiting = some r ∨ r = w.session.arena.next := by
  cases w.step_cases e with
  | turn hturn =>
    cases hturn.change with
    | keep _ hwait =>
      rcases hwait with hwait | hwait
      · exact .inl (hwait.symm.trans h)
      · simp [hwait] at h
    | close _ hwait => simp [hwait] at h
    | hold _ _ hwait => exact .inr (by simpa [hwait, eq_comm] using h)
    | answer _ _ hwait => simp [hwait] at h
    | finish _ _ _ _ hwait _ => exact .inl (hwait.symm.trans h)
    | promote _ _ _ _ _ _ hwait => simp [hwait] at h
  | reinstate _ _ _ hest _ hwaiting hsession =>
    left
    simp only [hsession, waiting, hwaiting] at h
    split at h
    · cases h
    · simpa only [waiting, hest] using h

theorem step_current_of_waiting (hw : w.WellFormed) (h : (w.step e).session.waiting = some r)
    (hcur' : (w.step e).current = some r) : w.current = some r := by
  cases w.step_cases e with
  | turn hturn =>
    cases hturn.change with
    | keep hcur _ => exact hcur.symm.trans hcur'
    | close hcur _ => simp [current, hcur] at hcur'
    | hold _ hcur _ => exact hcur.symm.trans hcur'
    | answer _ _ hwait => simp [hwait] at h
    | finish _ _ _ hcur hwait _ =>
      obtain rfl : w.session.arena.next = r := some.inj (hcur.symm.trans hcur')
      have hlt := hw.session _ (waiting_held (hwait.symm.trans h))
      exact absurd hlt (Nat.lt_irrefl _)
    | promote _ _ _ _ _ _ hwait => simp [hwait] at h
  | @reinstate k rc q est waiting _ _ _ _ _ hwaiting hsession =>
    obtain rfl : q = r := by simpa [current, Session.current, hsession] using hcur'
    simp only [hsession, Session.waiting, hwaiting] at h
    split at h
    · cases h
    next hother => exact absurd h hother

/-- **Keys in the waiting slot are unused.**  They have not been current at any time of the run. -/
theorem waiting_not_past (hw : w.WellFormed) (h0 : w.session.waiting = none) (evs : List Event)
    (h : (run step w evs).session.waiting = some r) : ¬ Past step w evs fun t => t.current = some r := by
  induction evs using reverseRecOn generalizing r with
  | nil => simp [h0] at h
  | append_singleton evs e ih =>
    rw [run_concat] at h
    intro hpast
    have hbefore : Past step w evs fun t => t.current = some r := by
      rcases past_concat.mp hpast with hpast | hnow
      · exact hpast
      · exact past_last (step_current_of_waiting (run_wellFormed hw evs) h hnow)
    rcases step_waiting h with hwaiting | hfresh
    · exact ih hwaiting hbefore
    · exact next_not_past hw (Nat.le_of_eq hfresh.symm) hbefore

theorem becomes_current (hbefore : w.current ≠ some r) (hafter : (w.step e).current = some r) :
    r = w.session.arena.next ∨ w.session.waiting = some r
      ∨ ∃ k rc, e = .promote k ∧ w.receivers[k]? = some rc ∧ rc.inbound.pending = some r
        ∧ w.current ≠ none := by
  cases w.step_cases e with
  | turn hturn =>
    cases hturn.change with
    | keep hcur _ => exact absurd (hcur.symm.trans hafter) hbefore
    | close hcur _ => simp [current, hcur] at hafter
    | hold _ hcur _ => exact absurd (hcur.symm.trans hafter) hbefore
    | answer _ hcur _ => exact .inl (some.inj (hafter.symm.trans hcur))
    | finish _ _ _ hcur _ _ => exact .inl (some.inj (hafter.symm.trans hcur))
    | @promote inb q d p now _ _ hinb hr _ hcur _ =>
      obtain rfl : q = r := some.inj (hcur.symm.trans hafter)
      obtain ⟨est, hest, rfl⟩ := inbound_eq_some hinb
      exact .inr (.inl (by simpa only [waiting, hest] using hr))
  | @reinstate k rc q est waiting he hrc hr hest _ _ hsession =>
    obtain rfl : q = r := by simpa [current, Session.current, hsession] using hafter
    exact .inr (.inr ⟨k, rc, he, hrc, hr, by simp [current, Session.current, hest]⟩)

/-! ### Rollback -/

/-- Keys that were current in the run and are not now. -/
def Displaced (w : Shared P) (evs : List Event) (r : Ref) : Prop :=
  Past step w evs (fun t => t.current = some r) ∧ (run step w evs).current ≠ some r

theorem promote_current {k : ℕ} {rc : Receiver} (hrc : w.receivers[k]? = some rc)
    (hr : rc.inbound.pending = some r) (hlive : w.current ≠ none) :
    (w.step (.promote k)).current = some r := by
  obtain ⟨est, hest⟩ : ∃ est, w.session.state = .established est := by
    unfold current Session.current at hlive
    split at hlive
    next est hest => exact ⟨est, hest⟩
    next => exact absurd rfl hlive
  by_cases hsame : est.session = r
  · simp [step, hrc, current, Session.current, Session.promote, hr, hest, hsame]
  · simp [step, hrc, current, Session.current, Session.promote, hr, hest, hsame]

/-- **Key rollback.**  Displaced keys never become current again, exactly when no receiver promotes
a snapshot whose waiting keys have been displaced. -/
theorem no_rollback_iff (keys : StaticKeys P) (peer : PeerPublic P) (pskEpoch index : UInt32)
    (evs : List Event) : (∀ a e b r, evs = a ++ e :: b → Displaced (new keys peer pskEpoch index) a r →
        ((run step (new keys peer pskEpoch index) a).step e).current ≠ some r)
      ↔ ∀ a k b rc r, evs = a ++ .promote k :: b →
          (run step (new keys peer pskEpoch index) a).receivers[k]? = some rc →
          rc.inbound.pending = some r → (run step (new keys peer pskEpoch index) a).current ≠ none →
          ¬ Displaced (new keys peer pskEpoch index) a r := by
  have hw := new_wellFormed keys peer pskEpoch index
  constructor
  · intro hnone a k b rc r hevs hrc hr hlive hdisplaced
    exact hnone a _ b r hevs hdisplaced (promote_current hrc hr hlive)
  · intro hfresh a e b r hevs hdisplaced hcur
    obtain ⟨hpast, hnot⟩ := hdisplaced
    rcases becomes_current hnot hcur with hnew | hwaiting | ⟨k, rc, rfl, hrc, hr, hlive⟩
    · exact next_not_past hw (Nat.le_of_eq hnew.symm) hpast
    · exact waiting_not_past hw rfl a hwaiting hpast
    · exact hfresh a k b rc r hevs hrc hr hlive ⟨hpast, hnot⟩

def referenceShared : Shared reference :=
  new (referenceKeys 5) ⟨(referenceKeys 3).kemPk, referencePsk⟩ 0 8

/-- Message number `c` that the peer seals under the keys of one of its handshakes. -/
def referenceData (keys : TransportKeys) (c : UInt64) : Bytes :=
  let peer := { TransportSession.new keys .initiator 0 0 with sendCounter := c }
  (peer.sealData reference [9] 1).2.toOption.getD []

/-- Two receivers hold snapshots with the same waiting keys and both open a message under them; the
first promotes at once, the second only after a later handshake has been promoted too. -/
def rollbackRun : List Event :=
  [ .adoptResponder [1] ⟨[1], [2]⟩ [] 0 (Vector.replicate 32 0),
    .adoptResponder [2] ⟨[3], [4]⟩ [] 0 (Vector.replicate 32 1), .snapshot, .snapshot,
    .openWith 0 (referenceData ⟨[3], [4]⟩ 0) 1, .promote 0, .openWith 1 (referenceData ⟨[3], [4]⟩ 1) 1,
    .adoptResponder [3] ⟨[5], [6]⟩ [] 0 (Vector.replicate 32 2), .snapshot,
    .openWith 2 (referenceData ⟨[5], [6]⟩ 0) 1, .promote 2, .promote 1 ]

/-- The keys at address `1` are current, displaced by those at `2`, and current again; every promoted
snapshot had opened a message under its waiting keys. -/
theorem rollback_by_stale_snapshot : (run step referenceShared (rollbackRun.take 6)).current = some 1
      ∧ (run step referenceShared (rollbackRun.take 11)).current = some 2
      ∧ (run step referenceShared rollbackRun).current = some 1
      ∧ (run step referenceShared (rollbackRun.take 5)).receivers[0]?.map Receiver.proven = some true
      ∧ (run step referenceShared (rollbackRun.take 10)).receivers[2]?.map Receiver.proven = some true
      ∧ (run step referenceShared (rollbackRun.take 11)).receivers[1]?.map Receiver.proven = some true := by
  decide +kernel

/-! ### Why keys change -/

theorem run_later (w : Shared P) (evs : List Event) : Later w.session.arena (run step w evs).session.arena :=
  run_rel (R := fun t u : Shared P => Later t.session.arena u.session.arena)
    (fun _ => Later.refl _) (fun _ _ _ => Later.trans) step_later w evs

/-- The keys a session sends and receives under. -/
def sendKeys (w : Shared P) : Option (Bytes × Bytes) :=
  w.current.map fun r => ((w.session.arena.cell r).sendCipher, (w.session.arena.cell r).recvCipher)

theorem sendKeys_eq_of_current (hw : w.WellFormed) (evs : List Event)
    (h : (run step w evs).current = w.current) : (run step w evs).sendKeys = w.sendKeys := by
  unfold sendKeys
  rw [h]
  cases hcur : w.current with
  | none => rfl
  | some r =>
    have hsame := (w.run_later evs).cell r (current_lt hw hcur)
    simp only [map_some, hsame.sendCipher, hsame.recvCipher]

/-- A handshake this session started itself, up to its retry timer. -/
def Started (w : Shared P) (evs : List Event) (hs : Handshake P) : Prop :=
  ∃ a e b now seed hs₀, evs = a ++ e :: b ∧ ((run step w a).session.newHandshake now seed).2 = some hs₀
    ∧ ((run step w a).step e).session.inFlight = some hs₀ ∧ hs₀.initiator = hs.initiator ∧ hs₀.msg1 = hs.msg1

theorem inFlight_started (h0 : w.session.inFlight = none) (evs : List Event) {hs : Handshake P}
    (h : (run step w evs).session.inFlight = some hs) : Started w evs hs := by
  induction evs using reverseRecOn generalizing hs with
  | nil => simp [h0] at h
  | append_singleton evs e ih =>
    rw [run_concat] at h
    cases (run step w evs).step_cases e with
    | turn hturn =>
      rcases hturn.carries hs h with ⟨hs', hs'eq, hini, hmsg⟩ | ⟨now, seed, hnew⟩
      · obtain ⟨a, e', b, now, seed, hs₀, rfl, h1, h2, h3, h4⟩ := ih hs'eq
        exact ⟨a, e', b ++ [e], now, seed, hs₀, by simp, h1, h2, h3.trans hini, h4.trans hmsg⟩
      · exact ⟨evs, e, [], now, seed, hs, rfl, hnew, h, rfl, rfl⟩
    | reinstate _ _ _ _ _ _ hsession => simp [hsession, inFlight] at h

/-- An event of the run opened a message with a snapshot of the session, under the keys waiting in
it. -/
def Proven (w : Shared P) (evs : List Event) (inb : Inbound) : Prop :=
  ∃ a e b, evs = a ++ e :: b ∧ Past step w a (fun t => t.session.inbound = some inb)
    ∧ (run step w a).Opens inb e

variable {evs evs' : List Event}

theorem Proven.mono {inb : Inbound} (h : Proven w evs inb) (hle : evs <+: evs') : Proven w evs' inb := by
  obtain ⟨a, e, b, rfl, hpast, hopen⟩ := h
  obtain ⟨rest, rfl⟩ := hle
  exact ⟨a, e, b ++ rest, by simp, hpast, hopen⟩

theorem receiver_history (h0 : w.receivers = []) (evs : List Event) {rc : Receiver}
    (h : rc ∈ (run step w evs).receivers) : Past step w evs (fun t => t.session.inbound = some rc.inbound)
      ∧ (rc.proven = true → Proven w evs rc.inbound) := by
  induction evs using reverseRecOn generalizing rc with
  | nil => simp [h0] at h
  | append_singleton evs e ih =>
    have hle : evs <+: evs ++ [e] := prefix_append evs [e]
    rw [run_concat] at h
    rcases mem_step_receivers h with ⟨rc', hrc', hinb, hproven⟩ | ⟨hinb, hflag⟩
    · obtain ⟨hpast, htruth⟩ := ih hrc'
      rw [hinb] at hpast htruth
      refine ⟨hpast.mono hle, fun hp => ?_⟩
      rcases hproven hp with hold | hopen
      · exact (htruth hold).mono hle
      · exact ⟨evs, e, [], rfl, hpast, hopen⟩
    · refine ⟨(past_last hinb).mono hle, fun hp => ?_⟩
      rw [hflag] at hp
      cases hp

/-- Why the keys at `r` may become current at event `e`. -/
inductive Evidence (w : Shared P) (past : List Event) (e : Event) (r : Ref) : Prop
  /-- They came out of an own handshake, finished by the response that the event brings. -/
  | finished {hs : Handshake P} {msg : Bytes} {keys : TransportKeys} {now : ℕ}
      (started : Started w past hs) (hmsg : e.message (run step w past).session = some (msg, now))
      (hfin : hs.initiator.tryFinish msg = .ok keys) (hcell : ((run step w past).step e).session.arena.cell r
        = TransportSession.new keys .initiator (run step w past).session.index now)
  /-- They were waiting in a snapshot with which the event, or one before it, opened a message. -/
  | opened {inb : Inbound} (hr : inb.pending = some r) (proven : Proven w (past ++ [e]) inb)

/-- The caller's side of `promote`: it follows an `Opened::Pending`. -/
def Disciplined (w : Shared P) (evs : List Event) : Prop :=
  ∀ a k b rc, evs = a ++ .promote k :: b → (run step w a).receivers[k]? = some rc → rc.proven = true

theorem evidence_of_change (h0 : w.session.inFlight = none) (hr0 : w.receivers = [])
    {past : List Event} (hdisc : Disciplined w (past ++ [e]))
    (hlive : (run step w past).current ≠ none) (hbefore : (run step w past).current ≠ some r)
    (hafter : ((run step w past).step e).current = some r) : Evidence w past e r := by
  cases (run step w past).step_cases e with
  | turn hturn =>
    cases hturn.change with
    | keep hcur _ => exact absurd (hcur.symm.trans hafter) hbefore
    | close hcur _ => simp [current, hcur] at hafter
    | hold _ hcur _ => exact absurd (hcur.symm.trans hafter) hbefore
    | answer hidle _ _ => exact absurd hidle hlive
    | finish hmsg hflight hfin hcur _ hcell =>
      obtain rfl := some.inj (hcur.symm.trans hafter)
      exact .finished (inFlight_started h0 past hflight) hmsg hfin hcell
    | promote hmsg htype hinb hr hopen hcur _ =>
      obtain rfl := some.inj (hcur.symm.trans hafter)
      exact .opened hr ⟨past, e, [], rfl, past_last hinb, .session hmsg htype hinb hopen⟩
  | @reinstate k rc q est waiting he hrc hr _ _ _ hsession =>
    obtain rfl : q = r := by simpa [current, Session.current, hsession] using hafter
    subst he
    have hproven := hdisc past k [] rc rfl hrc
    have hpast := (receiver_history hr0 past (mem_of_getElem? hrc)).2 hproven
    exact .opened hr (hpast.mono (prefix_append past _))

theorem Disciplined.of_prefix (h : Disciplined w evs') (hle : evs <+: evs') : Disciplined w evs := by
  obtain ⟨rest, rfl⟩ := hle
  rintro a k b rc rfl hrc
  exact h a k (b ++ rest) rc (by simp) hrc

theorem evidence_of_run (hw : w.WellFormed) (h0 : w.session.inFlight = none)
    (hr0 : w.receivers = []) (hdisc : Disciplined w (evs ++ evs'))
    (hlive : ∀ a, a <+: evs' → (run step w (evs ++ a)).current ≠ none)
    (hne : (run step w (evs ++ evs')).sendKeys ≠ (run step w evs).sendKeys) :
    ∃ a e b r, evs' = a ++ e :: b ∧ (run step w (evs ++ evs')).current = some r
      ∧ (run step w (evs ++ a)).current ≠ some r
      ∧ ((run step w (evs ++ a)).step e).current = some r ∧ Evidence w (evs ++ a) e r := by
  rw [run_append] at hne
  have hcur : (run step (run step w evs) evs').current ≠ (run step w evs).current :=
    fun h => hne (sendKeys_eq_of_current (run_wellFormed hw evs) evs' h)
  obtain ⟨a, e, b, rfl, hbefore, hafter⟩ := exists_last_change hcur
  obtain ⟨r, hr⟩ := ne_none_iff_exists'.mp (hlive _ (prefix_refl _))
  simp only [← run_append, hr] at hbefore hafter
  have hle : evs ++ a ++ [e] <+: evs ++ (a ++ e :: b) := ⟨b, by simp⟩
  exact ⟨a, e, b, r, rfl, hr, hbefore, hafter, evidence_of_change h0 hr0 (hdisc.of_prefix hle)
    (hlive a (prefix_append a _)) hbefore hafter⟩

end Shared

def Event.isInit : Event → Bool
  | .adoptResponder .. | .repeatResponse .. | .respondTo .. => true
  | _ => false

namespace Session

theorem adoptResponder_current {s : Session P} (hlive : s.current ≠ none) (init : Bytes)
    (keys : TransportKeys) (msg2 : Bytes) (now : ℕ) (seed : Seed) :
    (s.adoptResponder init keys msg2 now seed).1.current = s.current := by
  rw [adoptResponder_fst]
  cases h : s.state with
  | established e => simp only [current, h]
  | idle => exact absurd (by simp only [current, h]) hlive
  | handshaking hs => exact absurd (by simp only [current, h]) hlive

theorem repeatResponse_current (s : Session P) (init : Bytes) (seed : Seed) :
    (s.repeatResponse init seed).1.current = s.current := by
  rcases repeatResponse_fst s init seed with h | h <;> rw [h]
  rfl

theorem respondTo_current {s : Session P} (hlive : s.current ≠ none) (d : Bytes)
    (rand : ResponderRandomness) (now : ℕ) : (s.respondTo d rand now).1.current = s.current := by
  unfold respondTo
  dsimp only
  split
  next t actions heq =>
    have h := repeatResponse_current s d (seedFromResponderRandomness P rand)
    rwa [heq] at h
  next t heq =>
    obtain rfl := repeatResponse_none heq
    split
    next => rfl
    next msg2 pending _ => exact adoptResponder_current hlive d _ msg2 now _

end Session

namespace Shared

theorem step_isInit {e : Event} (he : e.isInit = true) (hlive : w.current ≠ none) :
    (w.step e).current = w.current := by
  cases e with
  | adoptResponder init keys msg2 now seed => exact adoptResponder_current hlive ..
  | repeatResponse init seed => exact repeatResponse_current ..
  | respondTo d rand now => exact respondTo_current hlive ..
  | connect | poll | handle | deliver | send | snapshot | openWith | promote => cases he

theorem run_isInit {inits : List Event} (hinits : ∀ e ∈ inits, e.isInit = true)
    (hlive : w.current ≠ none) : (run step w inits).current = w.current := by
  induction inits generalizing w with
  | nil => rfl
  | cons e inits ih =>
    have hstep := step_isInit (hinits e (by simp)) hlive
    rw [run_cons, ih (fun e he => hinits e (by simp [he])) (by rwa [hstep]), hstep]

/-- **Sending keys change only on proof**: by a handshake this session started, or by a message
opened under the waiting keys. -/
theorem keys_change_only_on_proof (keys : StaticKeys P) (peer : PeerPublic P) (pskEpoch index : UInt32) :
    (∀ evs evs', Disciplined (new keys peer pskEpoch index) (evs ++ evs') →
      (∀ a, a <+: evs' → (run step (new keys peer pskEpoch index) (evs ++ a)).current ≠ none) →
      (run step (new keys peer pskEpoch index) (evs ++ evs')).sendKeys
        ≠ (run step (new keys peer pskEpoch index) evs).sendKeys → ∃ a e b r, evs' = a ++ e :: b
        ∧ (run step (new keys peer pskEpoch index) (evs ++ evs')).current = some r
        ∧ (run step (new keys peer pskEpoch index) (evs ++ a)).current ≠ some r
        ∧ ((run step (new keys peer pskEpoch index) (evs ++ a)).step e).current = some r
        ∧ Evidence (new keys peer pskEpoch index) (evs ++ a) e r)
    ∧ ∀ evs inits, (∀ e ∈ inits, e.isInit = true) →
      (run step (new keys peer pskEpoch index) evs).current ≠ none →
      (run step (new keys peer pskEpoch index) (evs ++ inits)).sendKeys
        = (run step (new keys peer pskEpoch index) evs).sendKeys := by
  have hw := new_wellFormed keys peer pskEpoch index
  refine ⟨fun evs evs' hdisc hlive hne => evidence_of_run hw rfl rfl hdisc hlive hne, ?_⟩
  intro evs inits hinits hlive
  rw [run_append]
  exact sendKeys_eq_of_current (run_wellFormed hw evs) inits (run_isInit hinits hlive)

/-- Two inits are answered, and the snapshot of their keys is promoted. -/
def unprovenRun : List Event :=
  [ .adoptResponder [1] ⟨[1], [2]⟩ [] 0 (Vector.replicate 32 0),
    .adoptResponder [2] ⟨[3], [4]⟩ [] 0 (Vector.replicate 32 1), .snapshot, .promote 0 ]

/-- A snapshot promoted without opening anything installs keys nothing has proven. -/
theorem promote_without_proof : (run step referenceShared (unprovenRun.take 2)).sendKeys = some ([2], [1])
      ∧ (run step referenceShared unprovenRun).sendKeys = some ([4], [3])
      ∧ ∀ inb, ¬ Proven referenceShared unprovenRun inb := by
  refine ⟨by decide +kernel, by decide +kernel, ?_⟩
  rintro inb ⟨a, e, b, hrun, -, hopens⟩
  have he : e ∈ unprovenRun := by simp [hrun]
  simp only [unprovenRun, mem_cons, not_mem_nil, or_false] at he
  -- no event of the run is an opening, and none brings a message
  rcases he with rfl | rfl | rfl | rfl <;> cases hopens <;> contradiction

end Shared

end Karst.Node
