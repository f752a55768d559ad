import Karst.Node.KeyHistory

/-!
# Cookie replies to an init

A responder under load answers a `HandshakeInit` with a cookie, under the reassembly id of the
fragment it saw.  `handle_cookie_reply` looks for that id in `reassembly_id`, which every other sender
of the session writes too.
-/

namespace Karst.Node

open Crypto Noise Proto Runs Session

theorem fragment_again {P : Primitives} {ty : MessageType} {id : UInt32} {msg key d : Bytes}
    {ds : List Bytes} (h : fragment P ty id msg key = some (d :: ds)) (id' : UInt32) (key' : Bytes) :
    ∃ d' ds', fragment P ty id' msg key' = some (d' :: ds') := by
  obtain ⟨⟨budget, count⟩, hplan, -⟩ := Option.bind_eq_some_iff.mp h
  rw [fragment_of_plan hplan] at h ⊢
  cases count with
  | zero => cases h
  | succ count => exact ⟨_, _, congrArg some (by rw [List.range_succ_eq_map, List.map_cons])⟩

theorem Session.handleCookieReply_opened {P : Primitives} {s : Session P} {msg1 payload cookie : Bytes}
    {hdr : FragmentHeader} {id : UInt32} {seed : Seed} {frags : List Bytes}
    (hflight : s.inFlight.map Handshake.msg1 = some msg1)
    (hfrags : fragment P .handshakeInit (deriveReassemblyId P seed) msg1 (mac2Key P cookie) = some frags)
    (hmac : verifyFragMac P s.outMacKey 0x03 hdr.reassemblyId hdr.idx hdr.count payload hdr.fragMac = true)
    (hopen : openCookieReply P (P.toBytes s.peer.kemPk) payload = some (id, cookie)) :
    s.handleCookieReply payload hdr seed = if id = s.reassemblyId then
          ({ s with reassemblyId := deriveReassemblyId P seed }, some (frags.map .send))
        else (s, some []) := by
  obtain ⟨hs, hhs, rfl⟩ := Option.map_eq_some_iff.mp hflight
  simp only [handleCookieReply, hmac, hopen, hhs, hfrags, Bool.not_true, Bool.false_eq_true, if_false,
    ite_not]

namespace Shared

/-- An event, or the engine taking an id for a message that it frames itself. -/
inductive Op where
  | event (e : Event)
  | nextReassemblyId

variable {P : Primitives} {w : Shared P} {ops : List Op}

def stepOp (w : Shared P) : Op → Shared P
  | .event e => w.step e
  | .nextReassemblyId => { w with session := w.session.nextReassemblyId.1 }

def init (w : Shared P) : Option Bytes := w.session.inFlight.map Handshake.msg1

/-- The operation leaves the handshake in flight and does not send its init again. -/
def leavesInit (w : Shared P) : Op → Bool
  | .nextReassemblyId => true
  | .event (.send ..) | .event (.repeatResponse ..) | .event (.adoptResponder ..) => true
  | .event (.poll now seed) => w.session.inFlight.all (now < ·.nextRetryMs)
    && (w.step (.poll now seed)).init == w.init
  | .event e => (w.step e).init == w.init

theorem init_step {op : Op} (h : w.leavesInit op = true) : (w.stepOp op).init = w.init := by
  cases op with
  | nextReassemblyId => rfl
  | event e =>
    cases e with
    | send payload now =>
      fun_cases w.session.send payload now <;> simp_all [init, stepOp, step, inFlight, Session.send]
    | repeatResponse init' seed =>
      rcases w.session.repeatResponse_fst init' seed with heq | heq
      · simp only [init, stepOp, step, heq]
      · simp only [init, stepOp, step, heq, inFlight]
    | adoptResponder init' keys msg2 now seed =>
      simp only [init, stepOp, step, adoptResponder_fst, inFlight]
      cases w.session.state <;> rfl
    | poll now seed => exact eq_of_beq (Bool.and_eq_true_iff.mp h).2
    | _ => exact eq_of_beq h

theorem init_run (h : Along stepOp leavesInit w ops = true) : (run stepOp w ops).init = w.init := by
  have hstep (u : Shared P) (op : Op) (hop : u.leavesInit op = true) (hu : u.init = w.init) :
      (u.stepOp op).init = w.init := (init_step hop).trans hu
  exact along_induction hstep rfl h

/-- The operation takes no id for a message of its own: no sealed message, no answer to an init and
no id for the engine. -/
def keepsId (w : Shared P) : Op → Bool
  | .nextReassemblyId | .event (.adoptResponder ..) => false
  | .event (.send payload now) => w.current.all fun r =>
      !((w.session.arena.cell r).sealData P payload now).2.isOk
  | .event (.repeatResponse init _) => w.session.answered.all (·.1 ≠ init)
  | .event (.respondTo d rand _) => w.session.answered.all (·.1 ≠ d)
      && !(respond w.session.keys d w.session.lookupPeer rand w.session.index).isOk
  | .event _ => true

theorem send_reassemblyId {s : Session P} {payload : Bytes} {now : ℕ}
    (h : (s.current.all fun r => !((s.arena.cell r).sealData P payload now).2.isOk) = true) :
    (s.send payload now).1.reassemblyId = s.reassemblyId := by
  unfold send
  split
  next e he =>
    simp only [Session.current, he, Option.all_some] at h
    dsimp only
    split
    · rfl
    next hok => simp [hok, Except.isOk, Except.toBool] at h
  next => rfl

theorem repeatResponse_unanswered {s : Session P} {init : Bytes}
    (h : (s.answered.all (·.1 ≠ init)) = true) (seed : Seed) : s.repeatResponse init seed = (s, none) := by
  unfold repeatResponse
  split
  next => rfl
  next answered response hanswered =>
    rw [hanswered, Option.all_some] at h
    rw [if_pos (of_decide_eq_true h)]

/-- Before the retry time the timer emits nothing for a handshake in flight. -/
theorem poll_reassemblyId {s : Session P} {hs : Handshake P} (hflight : s.inFlight = some hs)
    {now : ℕ} (hearly : now < hs.nextRetryMs) (seed : Seed) :
    (s.poll now seed).1.reassemblyId = s.reassemblyId := by
  have hdue : (hs.retryDue now).2 = false := by
    rw [Handshake.retryDue, if_pos hearly]
  unfold poll
  split
  next => rfl
  next hs' hstate =>
    obtain rfl : hs' = hs := by simpa [inFlight, hstate] using hflight
    unfold pollHandshaking
    split
    · rfl
    · simp [hdue]
  next e hstate =>
    have hrekey : e.rekey = some hs := by simpa only [inFlight, hstate] using hflight
    unfold pollEstablished
    split
    · rfl
    · simp only [hrekey, pollRekey]
      split
      · rfl
      · simp [hdue]

theorem handleTransport_reassemblyId (s : Session P) (d : Bytes) (now : ℕ) :
    (s.handleTransport d now).1.reassemblyId = s.reassemblyId := by
  unfold handleTransport
  split
  next => rfl
  next inb _ =>
    dsimp only
    split
    · rcases promote_cases _ inb with h | ⟨_, _, _, _, _, _, _, h⟩ <;> rw [h]
    · rfl
    · rfl
    · rfl

theorem deliver_reassemblyId (s : Session P) (msg : Bytes) (now : ℕ) :
    (s.deliver msg now).1.reassemblyId = s.reassemblyId := by
  unfold deliver
  split
  · unfold handleResponse
    split
    · rfl
    · split
      · rfl
      · split
        · unfold dropRekey
          split <;> rfl
        · rfl
  · exact handleTransport_reassemblyId s msg now
  · rfl

/-- **Ids are taken by name.**  Beside an init in flight that is not sent again, only the operations
that `keepsId` excludes write the session's id. -/
theorem reassemblyId_step {op : Op} (hflight : w.init ≠ none) (hleaves : w.leavesInit op = true)
    (hkeeps : w.keepsId op = true) : (w.stepOp op).session.reassemblyId = w.session.reassemblyId := by
  obtain ⟨msg1, hinit⟩ := Option.ne_none_iff_exists'.mp hflight
  obtain ⟨hs, hhs, -⟩ := Option.map_eq_some_iff.mp hinit
  cases op with
  | nextReassemblyId => cases hkeeps
  | event e =>
    cases e with
    | connect now seed =>
      show (w.session.connect now seed).1.reassemblyId = _
      unfold connect
      split
      next hidle => simp [inFlight, hidle] at hhs
      next => rfl
    | poll now seed =>
      have hearly := (Bool.and_eq_true_iff.mp hleaves).1
      rw [hhs, Option.all_some] at hearly
      exact poll_reassemblyId hhs (of_decide_eq_true hearly) seed
    | handle d source now =>
      show (w.session.handle d source now).1.reassemblyId = _
      unfold handle
      split
      next => rfl
      next =>
        split
        · split
          · exact deliver_reassemblyId ..
          · rfl
        · rfl
    | deliver msg now => exact deliver_reassemblyId ..
    | send payload now => exact send_reassemblyId hkeeps
    | adoptResponder => cases hkeeps
    | repeatResponse init seed =>
      exact congrArg (·.1.reassemblyId) (repeatResponse_unanswered hkeeps seed)
    | respondTo d rand now =>
      obtain ⟨hfirst, hrefused⟩ := Bool.and_eq_true_iff.mp hkeeps
      show (w.session.respondTo d rand now).1.reassemblyId = _
      unfold respondTo
      simp only [repeatResponse_unanswered hfirst]
      split
      next => rfl
      next hok => simp [hok, Except.isOk, Except.toBool] at hrefused
    | snapshot => rfl
    | openWith k d now =>
      show (w.openBy k d now).session.reassemblyId = _
      unfold openBy
      split <;> rfl
    | promote k =>
      show (w.step (.promote k)).session.reassemblyId = _
      unfold step
      dsimp only
      split
      · rfl
      · rcases w.session.promote_cases _ with h | ⟨_, _, _, _, _, _, _, h⟩ <;> rw [h]

theorem reassemblyId_run (hflight : w.init ≠ none) (hleaves : Along stepOp leavesInit w ops = true)
    (hkeeps : Along stepOp keepsId w ops = true) :
    (run stepOp w ops).session.reassemblyId = w.session.reassemblyId := by
  induction ops generalizing w with
  | nil => rfl
  | cons op ops ih =>
    obtain ⟨hop, hrest⟩ := Bool.and_eq_true_iff.mp hleaves
    obtain ⟨hid, hids⟩ := Bool.and_eq_true_iff.mp hkeeps
    rw [run_cons, ih (by rwa [init_step hop]) hrest hids, reassemblyId_step hflight hop hid]

/-- **Replies find their init** in every run in which nothing else has taken an id: the reply to the
init makes it go out again under the cookie, and one to any other message is ignored. -/
theorem cookieReply_matched {msg1 key d : Bytes} {ds : List Bytes} (hinit : w.init = some msg1)
    (hsent : fragment P .handshakeInit w.session.reassemblyId msg1 key = some (d :: ds))
    (hops : Along stepOp leavesInit w ops = true) (hids : Along stepOp keepsId w ops = true)
    {payload cookie : Bytes} {hdr : FragmentHeader} {id : UInt32}
    (hmac : verifyFragMac P (run stepOp w ops).session.outMacKey 0x03 hdr.reassemblyId hdr.idx hdr.count
      payload hdr.fragMac = true)
    (hopen : openCookieReply P (P.toBytes (run stepOp w ops).session.peer.kemPk) payload
      = some (id, cookie)) (seed : Seed) :
    let s := (run stepOp w ops).session
    (id = w.session.reassemblyId → ∃ d' ds',
        fragment P .handshakeInit (deriveReassemblyId P seed) msg1 (mac2Key P cookie) = some (d' :: ds')
          ∧ s.handleCookieReply payload hdr seed = ({ s with reassemblyId := deriveReassemblyId P seed },
                some ((d' :: ds').map .send)))
      ∧ (id ≠ w.session.reassemblyId → s.handleCookieReply payload hdr seed = (s, some [])) := by
  intro s
  have hflight : w.init ≠ none := by simp [hinit]
  have hid : s.reassemblyId = w.session.reassemblyId := reassemblyId_run hflight hops hids
  obtain ⟨d', ds', hfrags⟩ := fragment_again hsent (deriveReassemblyId P seed) (mac2Key P cookie)
  have hreply := handleCookieReply_opened ((init_run hops).trans hinit) hfrags hmac hopen
  rw [hreply, hid]
  exact ⟨fun h => ⟨d', ds', hfrags, if_pos h⟩, fun h => if_neg h⟩

def dialling : Shared reference := referenceShared.step (.connect 0 (Vector.replicate 32 7))

def dialledId : UInt32 := dialling.session.reassemblyId

/-- The timer runs early, the caller dials again, and data and an init come that it cannot use. -/
def waiting : List Op :=
  [ .event (.poll 1 (Vector.replicate 32 8)), .event (.connect 2 (Vector.replicate 32 8)),
    .event (.send [9] 3), .event (.deliver [0x04] 3), .event (.respondTo [1] referenceRandR 4) ]

def replyTo (id : UInt32) : Bytes :=
  (buildCookieReply reference (reference.toBytes dialling.session.peer.kemPk) id
    (List.replicate 24 6) (List.replicate 12 0)).getD []

def replyHeader (id : UInt32) : FragmentHeader :=
  fragmentHeader reference .cookieReply id dialling.session.outMacKey 1 0 (replyTo id)

theorem waiting_facts : let s := (run stepOp dialling waiting).session
    let hdr := replyHeader dialledId
    dialling.init = some (dialling.init.getD [])
    ∧ plan .handshakeInit (dialling.init.getD []).length = some (FRAGMENT_PAYLOAD_MAX, 3)
    ∧ Along stepOp leavesInit dialling waiting = true ∧ Along stepOp keepsId dialling waiting = true
    ∧ verifyFragMac reference s.outMacKey 0x03 hdr.reassemblyId hdr.idx hdr.count (replyTo dialledId)
        hdr.fragMac = true
    ∧ openCookieReply reference (reference.toBytes s.peer.kemPk) (replyTo dialledId)
      = some (dialledId, List.replicate 24 6) := by
  decide +kernel

theorem cookieReply_matched_waiting : ∃ d : Bytes, ∃ ds : List Bytes,
    ((run stepOp dialling waiting).session.handleCookieReply (replyTo dialledId) (replyHeader dialledId)
      (Vector.replicate 32 9)).2 = some ((d :: ds).map .send) := by
  obtain ⟨hinit, hplan, hops, hids, hmac, hopen⟩ := waiting_facts
  have hsent := @fragment_of_plan reference _ dialledId _ [] _ _ hplan
  obtain ⟨d, ds, -, hsends⟩ := (cookieReply_matched hinit hsent hops hids hmac hopen
    (Vector.replicate 32 9)).1 rfl
  exact ⟨d, ds, congrArg Prod.snd hsends⟩

/-- The peer's init crosses, and the response takes the id: a cookie for the init is ignored, one for
the response is not. -/
theorem crossed_reply_ignored :
    let crossing := [.event (.adoptResponder [1] ⟨[1], [2]⟩ [2] 0 (Vector.replicate 32 8))]
    let s := (run stepOp dialling crossing).session
    Along stepOp leavesInit dialling crossing = true
      ∧ Along stepOp keepsId dialling crossing = false
      ∧ openCookieReply reference (reference.toBytes s.peer.kemPk) (replyTo dialledId)
        = some (dialledId, List.replicate 24 6)
      ∧ (s.handleCookieReply (replyTo dialledId) (replyHeader dialledId) (Vector.replicate 32 9)).2
        = some [] ∧ s.reassemblyId ≠ dialledId
      ∧ (s.handleCookieReply (replyTo s.reassemblyId) (replyHeader s.reassemblyId)
          (Vector.replicate 32 9)).2 ≠ some [] := by
  decide +kernel

end Shared

end Karst.Node
