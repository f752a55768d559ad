import Karst.Node.KeySlots

/-!
# What a session remembers having answered

A session keeps the last `HandshakeInit` it answered and the response it sent.  Nothing else a session
does touches that record, and what is in it came from `respond`.
-/

namespace Karst.Node

open Crypto Noise Proto

variable {P : Primitives}

/-! ### Inits and responses -/

def RESPONSE_LEN : ℕ := 12 + KEM_CIPHERTEXT + KEM_CIPHERTEXT + 16

theorem head_of_parse {msg : Bytes} {init : Init} (h : Init.parse msg = .ok init) :
    msg.head? = some 0x01 := by
  obtain ⟨⟨header, _⟩, -, h⟩ := bind_eq_ok.mp h
  obtain ⟨⟨ty, rest⟩, htake, h⟩ := bind_eq_ok.mp h
  obtain ⟨hty, -⟩ := guard_eq_ok.mp h
  obtain ⟨rfl, hlen⟩ := take_eq_ok.mp htake
  rw [List.head?_append_of_ne_nil _ (by rintro rfl; cases hlen)]
  exact not_not.mp hty

theorem respond_shape {keys : StaticKeys P} {msg : Bytes}
    {lookup : Lookup P} {rand : ResponderRandomness} {index : UInt32}
    {msg2 : Bytes} {pending : Unconfirmed TransportKeys}
    (h : respond keys msg lookup rand index = .ok (msg2, pending)) :
    msg.head? = some 0x01 ∧ msg2.length = RESPONSE_LEN := by
  obtain ⟨r⟩ := respond_eq_ok.mp h
  obtain ⟨k, -, hseal, -⟩ := SymmetricState.encryptAndHash_inv r.encrypted
  have hconf : r.encEmpty.length = 16 := Primitives.cipherSeal_length hseal
  refine ⟨head_of_parse r.parsed, ?_⟩
  rw [r.out_eq, List.length_append, List.length_append, List.length_append, hconf,
    P.encapsulate_length, P.encapsulate_length]
  rfl

theorem fragment_response {response : Bytes} (h : response.length = RESPONSE_LEN) (id : UInt32)
    (macKey : Bytes) :
    ∃ frags, fragment P .handshakeResponse id response macKey = some frags ∧ frags ≠ [] := by
  have hplan : plan .handshakeResponse response.length = some (FRAGMENT_PAYLOAD_MAX, 3) := by
    rw [h]
    decide
  exact ⟨_, fragment_of_plan hplan, by simp⟩

namespace Session

variable {s s' : Session P} {now : ℕ} {seed : Seed}

/-! ### The record -/

structure Sound (s : Session P) : Prop where
  wellFormed : s.WellFormed
  answered : ∀ init response, s.answered = some (init, response) →
    init.head? = some 0x01 ∧ response.length = RESPONSE_LEN

theorem Sound.of_turn {m : Option (Bytes × ℕ)} (h : s.Sound) (hturn : Turn m s s')
    (hanswered : s'.answered = s.answered) : s'.Sound where
  wellFormed := hturn.wellFormed h.wellFormed
  answered init response ha := h.answered init response (hanswered ▸ ha)

theorem Sound.of_state (h : s.Sound) (hstate : s'.state = s.state)
    (hnext : s.arena.next ≤ s'.arena.next) (hanswered : s'.answered = s.answered) : s'.Sound where
  wellFormed r hr := by
    have hinb : s'.inbound = s.inbound := by simp only [inbound, hstate]
    rw [Holds, hinb] at hr
    exact Nat.lt_of_lt_of_le (h.wellFormed r hr) hnext
  answered init response ha := h.answered init response (hanswered ▸ ha)

theorem new_sound (keys : StaticKeys P) (peer : PeerPublic P) (epoch index : UInt32) :
    (Session.new keys peer epoch index).Sound :=
  ⟨new_wellFormed keys peer epoch index, fun _ _ h => by cases h⟩

theorem emit_answered (s : Session P) (ty : MessageType) (msg : Bytes) :
    (s.emit ty msg seed).1.answered = s.answered := by rw [emit_fst]

theorem newHandshake_answered {t : Session P} {hs : Option (Handshake P)}
    (h : s.newHandshake now seed = (t, hs)) : t.answered = s.answered := by
  have hfst := congrArg Session.answered (newHandshake_fst s now seed)
  rwa [h] at hfst

theorem connect_answered : (s.connect now seed).1.answered = s.answered := by
  unfold connect
  split
  · fun_cases s.startHandshake now seed with
    | case1 t heq => exact newHandshake_answered heq
    | case2 t hs heq =>
      have hnew := newHandshake_answered heq
      rwa [emit_answered]
  · rfl

theorem pollEstablished_answered (e : Established P) :
    (s.pollEstablished e now seed).1.answered = s.answered := by
  unfold pollEstablished
  split_ifs
  · rfl
  · dsimp only
    split
    · fun_cases pollRekey with
      | case2 => exact emit_answered ..
      | _ => rfl
    · fun_cases pollIdleRekey with
      | case1 _ _ t heq =>
        have hnew := newHandshake_answered heq
        exact hnew
      | case2 _ _ t hs heq =>
        have hnew := newHandshake_answered heq
        rwa [emit_answered]
      | case3 => rfl

theorem poll_answered : (s.poll now seed).1.answered = s.answered := by
  unfold poll
  split
  · rfl
  · fun_cases pollHandshaking with
    | case2 => exact emit_answered ..
    | _ => rfl
  · exact pollEstablished_answered _

theorem promote_answered (s : Session P) (inb : Inbound) : (s.promote inb).answered = s.answered := by
  rcases promote_cases s inb with h | ⟨_, _, _, _, _, _, _, h⟩
  · rw [h]
  · rw [h]

theorem promote_sound (h : s.Sound) {inb : Inbound}
    (hinb : ∀ r, inb.pending = some r → r < s.arena.next) : (s.promote inb).Sound := by
  refine ⟨?_, fun init response ha => h.answered init response (s.promote_answered inb ▸ ha)⟩
  rcases promote_cases s inb with hsame | ⟨r, e, waiting, hr, he, -, rfl, hpromote⟩
  · rw [hsame]
    exact h.wellFormed
  · rw [hpromote]
    intro q hq
    have hheld := fun q => (holds_of_established he q).mpr
    rcases (holds_of_established rfl q).mp hq with rfl | hq | hq
    · exact hinb q hr
    · split_ifs at hq
      exact h.wellFormed q (hheld q (.inr (.inl hq)))
    · exact h.wellFormed q (hheld q (.inl (Option.some.inj hq).symm))

theorem deliver_answered (s : Session P) (msg : Bytes) (now : ℕ) :
    (s.deliver msg now).1.answered = s.answered := by
  unfold deliver
  split
  · unfold handleResponse
    split
    · rfl
    · split
      · rfl
      · split_ifs
        · unfold dropRekey
          split <;> rfl
        · rfl
  · unfold handleTransport
    split
    · rfl
    · dsimp only
      split
      · rw [promote_answered]
      all_goals rfl
  · rfl

theorem handleCookieReply_fst (s : Session P) (payload : Bytes) (hdr : FragmentHeader) (seed : Seed) :
    (s.handleCookieReply payload hdr seed).1 = s
      ∨ (s.handleCookieReply payload hdr seed).1 = { s with reassemblyId := deriveReassemblyId P seed } := by
  fun_cases s.handleCookieReply payload hdr seed with
  | case5 | case6 => exact .inr rfl
  | _ => exact .inl rfl

/-! ### Repeated inits -/

theorem repeatResponse_of_answered {init response : Bytes} (h : s.answered = some (init, response))
    {frags : List Bytes}
    (hfrags : fragment P .handshakeResponse (deriveReassemblyId P seed) response s.outMacKey
      = some frags) : s.repeatResponse init seed
      = ({ s with reassemblyId := deriveReassemblyId P seed }, some (frags.map .send)) := by
  simp [repeatResponse, h, emit, hfrags]

theorem repeatResponse_of_ne {init : Bytes} (h : ∀ response, s.answered ≠ some (init, response))
    (seed : Seed) : s.repeatResponse init seed = (s, none) := by
  unfold repeatResponse
  split
  · rfl
  · rename_i answered response heq
    rw [if_pos]
    rintro rfl
    exact h response heq

/-- **Answering afresh** puts new keys beside, or in place of, the old ones. -/
theorem adoptResponder_inbound (h : s.WellFormed) (init : Bytes) (keys : TransportKeys) (msg2 : Bytes)
    (now : ℕ) (seed : Seed) : (s.adoptResponder init keys msg2 now seed).1.inbound ≠ s.inbound := by
  have hholds : (s.adoptResponder init keys msg2 now seed).1.Holds s.arena.next := by
    rw [adoptResponder_fst]
    cases hs : s.state with
    | idle => exact (holds_of_established rfl _).mpr (.inl rfl)
    | handshaking hs => exact (holds_of_established rfl _).mpr (.inl rfl)
    | established e => exact (holds_of_established rfl _).mpr (.inr (.inl rfl))
  intro heq
  rw [Holds, heq] at hholds
  exact Nat.lt_irrefl _ (h _ hholds)

theorem adoptResponder_sound (h : s.Sound) {init msg2 : Bytes} (hinit : init.head? = some 0x01)
    (hmsg2 : msg2.length = RESPONSE_LEN) (keys : TransportKeys) (now : ℕ) (seed : Seed) :
    (s.adoptResponder init keys msg2 now seed).1.Sound where
  wellFormed := adoptResponder_turn.wellFormed h.wellFormed
  answered init' response ha := by
    rw [adoptResponder_fst] at ha
    cases ha
    exact ⟨hinit, hmsg2⟩

end Session

end Karst.Node
