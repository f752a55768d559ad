import Karst.Crypto.Reference
import Karst.Noise.Transport

/-!
# Whole runs of a transport session

What a session guarantees over any sequence of `seal` and `open` calls.
-/

namespace Karst.Noise

open Crypto Option
open List hiding Vector

namespace TransportSession

inductive Call where
  | sealing (plaintext : Bytes) (nowMs : ℕ)
  | opening (msg : Bytes) (nowMs : ℕ)

variable (P : Primitives)

/-- A call leaves the session changed and returns a result. -/
def call (s : TransportSession) : Call → TransportSession × Except TransportError Bytes
  | .sealing p now => s.sealData P p now
  | .opening m now => s.openData P m now

def run (s : TransportSession) (cs : List Call) : TransportSession :=
  cs.foldl (fun s c => (s.call P c).1) s

/-- Message and plaintext of one call of `open` that succeeds. -/
def deliveredBy (s : TransportSession) : Call → List (Bytes × Bytes)
  | .opening m now => match (s.openData P m now).2 with
      | .ok pt => [(m, pt)]
      | .error _ => []
  | .sealing _ _ => []

/-- Plaintext and message of one call of `seal` that succeeds. -/
def sentBy (s : TransportSession) : Call → List (Bytes × Bytes)
  | .sealing p now => match (s.sealData P p now).2 with
      | .ok m => [(p, m)]
      | .error _ => []
  | .opening _ _ => []

def logged {α : Type*} (entry : TransportSession → Call → List α) :
    TransportSession → List Call → List α
  | _, [] => []
  | s, c :: cs => entry s c ++ logged entry (s.call P c).1 cs

def delivered (s : TransportSession) (cs : List Call) : List (Bytes × Bytes) :=
  logged P (deliveredBy P) s cs

def sent (s : TransportSession) (cs : List Call) : List (Bytes × Bytes) :=
  logged P (sentBy P) s cs

variable {P}

theorem run_concat (s : TransportSession) (cs : List Call) (c : Call) :
    s.run P (cs ++ [c]) = ((s.run P cs).call P c).1 := by
  simp [run]

theorem logged_concat {α : Type*} (entry : TransportSession → Call → List α)
    (s : TransportSession) (cs : List Call) (c : Call) :
    logged P entry s (cs ++ [c]) = logged P entry s cs ++ entry (s.run P cs) c := by
  induction cs generalizing s with
  | nil => simp [logged, run]
  | cons d cs ih =>
    rw [cons_append, logged, logged, ih, append_assoc]
    rfl

variable {s : TransportSession} {cs : List Call}

theorem mem_logged {α : Type*} {entry : TransportSession → Call → List α} {a : α}
    (h : a ∈ logged P entry s cs) : ∃ pre c post, cs = pre ++ c :: post ∧ a ∈ entry (s.run P pre) c := by
  induction cs generalizing s with
  | nil => simp [logged] at h
  | cons d cs ih =>
    rcases mem_append.mp h with h | h
    · exact ⟨[], d, cs, rfl, h⟩
    · obtain ⟨pre, c, post, rfl, ha⟩ := ih h
      exact ⟨d :: pre, c, post, rfl, ha⟩

/-! ### What never changes, and what the window remembers -/

theorem call_same (s : TransportSession) (c : Call) : Same s (s.call P c).1 := by
  cases c with
  | sealing p now => exact sealData_same p now
  | opening m now => exact openData_same m now

theorem run_same (s : TransportSession) (cs : List Call) : Same s (s.run P cs) := by
  induction cs using reverseRecOn with
  | nil => exact Same.refl s
  | append_singleton cs c ih =>
    rw [run_concat]
    exact Same.trans _ _ _ ih (call_same _ c)

def messageCounter (msg : Bytes) : Option UInt64 :=
  match Frame.parse msg with
  | .ok f => some f.counter
  | .error _ => none

def deliveredCounters (P : Primitives) (s : TransportSession) (cs : List Call) : List UInt64 :=
  (s.delivered P cs).filterMap fun d => messageCounter d.1

theorem runInvariant_call {l : List UInt64} (h : ReplayWindow.RunInvariant (s.window, l))
    (c : Call) : ReplayWindow.RunInvariant ((s.call P c).1.window,
      l ++ (s.deliveredBy P c).filterMap fun d => messageCounter d.1) := by
  cases c with
  | sealing p now =>
    have hw : (s.call P (.sealing p now)).1.window = s.window := by
      rw [call, sealData_fst]
      split <;> rfl
    rw [hw]
    simpa [deliveredBy] using h
  | opening m now =>
    rw [call]
    cases hr : (s.openData P m now).2 with
    | error e =>
      rw [openData_error hr]
      simpa [deliveredBy, hr] using h
    | ok pt =>
      obtain ⟨-, f, hf, -, ha⟩ := openData_eq_ok.mp hr
      have ho := h.offer f.counter
      rw [ReplayWindow.offer, if_pos ha] at ho
      rw [openData_ok_fst hr hf]
      simpa [deliveredBy, hr, messageCounter, hf] using ho

/-- **The window is the record of what was delivered**, after any calls on a fresh session. -/
theorem runInvariant_run (keys : TransportKeys) (role : Role) (idx : UInt32) (t0 : ℕ)
    (cs : List Call) : ReplayWindow.RunInvariant (((new keys role idx t0).run P cs).window,
      deliveredCounters P (new keys role idx t0) cs) := by
  induction cs using reverseRecOn with
  | nil =>
    have h0 := ReplayWindow.runInvariant_acceptRun []
    cases role <;> exact h0
  | append_singleton cs c ih =>
    rw [run_concat, deliveredCounters, delivered, logged_concat, filterMap_append]
    exact runInvariant_call ih c

/-! ### Delivery -/

variable {m : Bytes}

theorem mem_delivered {pt : Bytes} (h : (m, pt) ∈ s.delivered P cs) :
    ∃ pre now post, cs = pre ++ .opening m now :: post ∧ ((s.run P pre).openData P m now).2 = .ok pt := by
  obtain ⟨pre, c, post, hcs, hmem⟩ := mem_logged h
  cases c with
  | sealing p now => simp [deliveredBy] at hmem
  | opening m' now =>
    rw [deliveredBy] at hmem
    split at hmem
    · rename_i pt' hr
      simp only [mem_singleton, Prod.mk.injEq] at hmem
      obtain ⟨rfl, rfl⟩ := hmem
      exact ⟨pre, now, post, hcs, hr⟩
    · simp at hmem

theorem mem_sent {p : Bytes} (h : (p, m) ∈ s.sent P cs) :
    ∃ pre now, ((s.run P pre).sealData P p now).2 = .ok m := by
  obtain ⟨pre, c, -, -, hmem⟩ := mem_logged h
  cases c with
  | opening m' now => simp [sentBy] at hmem
  | sealing p' now =>
    rw [sentBy] at hmem
    split at hmem
    · rename_i m' hr
      simp only [mem_singleton, Prod.mk.injEq] at hmem
      obtain ⟨rfl, rfl⟩ := hmem
      exact ⟨pre, now, hr⟩
    · simp at hmem

theorem messageCounter_delivered {d : Bytes × Bytes} (h : d ∈ s.delivered P cs) :
    (messageCounter d.1).isSome := by
  obtain ⟨pre, now, post, -, hok⟩ := mem_delivered h
  obtain ⟨-, f, hf, -, -⟩ := openData_eq_ok.mp hok
  simp [messageCounter, hf]

theorem delivered_nodup (keys : TransportKeys) (role : Role) (idx : UInt32) (t0 : ℕ)
    (cs : List Call) : (((new keys role idx t0).delivered P cs).map Prod.fst).Nodup := by
  have hnodup := (runInvariant_run (P := P) keys role idx t0 cs).nodup
  have hmap : (deliveredCounters P (new keys role idx t0) cs).map some
      = (((new keys role idx t0).delivered P cs).map Prod.fst).map messageCounter := by
    rw [deliveredCounters, List.map_filterMap, List.map_map, ← List.filterMap_eq_map]
    apply filterMap_congr
    intro d hd
    obtain ⟨c, hc⟩ := isSome_iff_exists.mp (messageCounter_delivered hd)
    simp [hc]
  have hall := hnodup.map (some_injective _)
  rw [hmap] at hall
  exact hall.of_map

theorem delivered_plaintext (hP : P.Correct) {peer : TransportSession}
    (hkey : peer.sendCipher = s.recvCipher) {peerCalls : List Call} {p pt : Bytes}
    (hd : (m, pt) ∈ s.delivered P cs) (hs : (p, m) ∈ peer.sent P peerCalls) : pt = padded p := by
  obtain ⟨pre, now, post, -, hok⟩ := mem_delivered hd
  obtain ⟨pre', now', hsealed⟩ := mem_sent hs
  obtain ⟨-, f, hf, hdec, -⟩ := openData_eq_ok.mp hok
  obtain ⟨f', hf', -, hdec'⟩ := decrypt_sealed hP hsealed
  obtain rfl : f = f' := by simpa using hf.symm.trans hf'
  rw [(run_same s pre).recvCipher] at hdec
  rw [(run_same peer pre').sendCipher, hkey, hdec] at hdec'
  exact some.inj hdec'

/-- **Exactly-once delivery** of what the peer sealed, padded.  A call of `open` that fails leaves
the session as it was. -/
theorem delivery_exactly_once (hP : P.Correct) (keys : TransportKeys) (role : Role) (idx : UInt32)
    (t0 : ℕ) (calls : List Call) (peer : TransportSession)
    (hkey : peer.sendCipher = (new keys role idx t0).recvCipher) (peerCalls : List Call)
    (ideal : ∀ m now f, Call.opening m now ∈ calls → Frame.parse m = .ok f →
      (f.decrypt P (new keys role idx t0).recvCipher).isSome → ∃ p, (p, m) ∈ peer.sent P peerCalls) :
    (((new keys role idx t0).delivered P calls).map Prod.fst).Nodup
      ∧ (∀ m pt, (m, pt) ∈ (new keys role idx t0).delivered P calls →
          ∃ p, (p, m) ∈ peer.sent P peerCalls ∧ pt = padded p)
      ∧ (∀ pre m now post e, calls = pre ++ .opening m now :: post →
          (((new keys role idx t0).run P pre).openData P m now).2 = .error e →
            (new keys role idx t0).run P (pre ++ [.opening m now]) = (new keys role idx t0).run P pre) := by
  refine ⟨delivered_nodup keys role idx t0 calls, ?_, ?_⟩
  · intro m pt hd
    obtain ⟨pre, now, post, hcs, hok⟩ := mem_delivered hd
    obtain ⟨-, f, hf, hdec, -⟩ := openData_eq_ok.mp hok
    rw [(run_same _ pre).recvCipher] at hdec
    obtain ⟨p, hp⟩ := ideal m now f (by simp [hcs]) hf (by simp [hdec])
    exact ⟨p, hp, delivered_plaintext hP hkey hd hp⟩
  · intro pre m now post e _ herr
    rw [run_concat]
    exact openData_error herr

def sealedFive : Bytes :=
  dataHeader 0 0 ++ padded [5] ++ Reference.tagOf [1] (nonce 0) (dataHeader 0 0) (padded [5])

theorem delivery_exactly_once_reference : ((new ⟨[1], [2]⟩ .responder 0 0).delivered reference
        [.opening sealedFive 0, .opening [4] 1, .opening sealedFive 2]).map Prod.fst = [sealedFive]
      ∧ (((new ⟨[1], [2]⟩ .responder 0 0).delivered reference
        [.opening sealedFive 0, .opening [4] 1, .opening sealedFive 2]).map Prod.fst).Nodup := by
  refine ⟨by decide +kernel, ?_⟩
  refine (delivery_exactly_once reference_correct ⟨[1], [2]⟩ .responder 0 0 _
    (new ⟨[1], [2]⟩ .initiator 0 0) rfl [.sealing [5] 0] ?_).1
  intro m now f hm hf hdec
  refine ⟨[5], ?_⟩
  have hsent : (new ⟨[1], [2]⟩ .initiator 0 0).sent reference [.sealing [5] 0]
      = [([5], sealedFive)] := by decide +kernel
  rw [hsent]
  simp only [mem_cons, Call.opening.injEq, not_mem_nil, or_false] at hm
  rcases hm with ⟨rfl, -⟩ | ⟨rfl, -⟩ | ⟨rfl, -⟩
  · simp
  · exact absurd hf (by simp [Frame.parse, cut, HEADER_LEN])
  · simp

/-- The payload comes back with its padding: sixteen bytes for one. -/
theorem open_returns_padding : ((new ⟨[1], [2]⟩ .initiator 0 0).sealData reference [5] 0).2 = .ok sealedFive
      ∧ ((new ⟨[1], [2]⟩ .responder 0 0).openData reference sealedFive 0).2 = .ok (padded [5])
      ∧ padded [5] ≠ [5] := by
  refine ⟨?_, ?_, ?_⟩ <;> decide +kernel

/-! ### Nonces -/

def sealResults (P : Primitives) : TransportSession → List (Bytes × ℕ) →
    List (Except TransportError Bytes)
  | _, [] => []
  | s, c :: cs => (s.sealData P c.1 c.2).2 :: sealResults P (s.sealData P c.1 c.2).1 cs

/-- The counters of the messages returned `Ok`, read off the messages. -/
def okCounters (P : Primitives) (s : TransportSession) (calls : List (Bytes × ℕ)) : List UInt64 :=
  (s.sealResults P calls).filterMap fun r => r.toOption.bind messageCounter

/-- How many of the calls are made before the session expires. -/
def unexpired (s : TransportSession) (calls : List (Bytes × ℕ)) : ℕ :=
  calls.countP fun c => !s.expired c.2

def handedOut (c0 : UInt64) (n : ℕ) : List UInt64 :=
  (List.range n).map fun i => c0 + UInt64.ofNat i

variable (c0 : UInt64)

theorem handedOut_succ (n : ℕ) : handedOut c0 (n + 1) = c0 :: handedOut (c0 + 1) n := by
  rw [handedOut, List.range_succ_eq_map, List.map_cons, List.map_map]
  refine congrArg₂ cons (by simp) (map_congr_left fun i _ => ?_)
  simp [add_assoc, add_comm]

theorem sealData_ok (hP : P.Correct) (p : Bytes) {now : ℕ} (he : s.expired now = false)
    (hc : s.sendCounter ≠ 0xFFFFFFFFFFFFFFFF) :
    ∃ m, (s.sealData P p now).2 = .ok m ∧ messageCounter m = some s.sendCounter := by
  obtain ⟨ct, tag, henc, -⟩ := hP.decrypt_encrypt s.sendCipher (nonce s.sendCounter)
    (dataHeader s.peerIndex s.sendCounter) (padded p)
  have hok := sealData_eq_ok.mpr ⟨he, hc, ct, tag, henc, rfl⟩
  obtain ⟨f, hf, hcounter, -⟩ := decrypt_sealed hP hok
  exact ⟨_, hok, by simp only [messageCounter, hf, hcounter]⟩

theorem sealData_none (p : Bytes) {now : ℕ} (h : s.expired now = true ∨ s.sendCounter = 0xFFFFFFFFFFFFFFFF) :
    (s.sealData P p now).2.toOption = none := by
  cases hr : (s.sealData P p now).2 with
  | error e => rfl
  | ok m =>
    obtain ⟨he, hc, -⟩ := sealData_eq_ok.mp hr
    rcases h with h | h
    · simp [h] at he
    · exact absurd h hc

/-- **What a run of `seal` calls uses.**  The counters handed out, without the last of the counter
space, for which `seal` reports exhaustion. -/
theorem okCounters_eq (hP : P.Correct) (s : TransportSession) (calls : List (Bytes × ℕ)) :
    okCounters P s calls = (handedOut s.sendCounter (unexpired s calls)).filter
      fun c => c ≠ 0xFFFFFFFFFFFFFFFF := by
  induction calls generalizing s with
  | nil => rfl
  | cons call calls ih =>
    have hnext := ih (s.sealData P call.1 call.2).1
    unfold okCounters at hnext ⊢
    rw [sealResults, filterMap_cons, hnext, sealData_fst]
    by_cases he : s.expired call.2 = true
    · simp [sealData_none call.1 (Or.inl he), he, unexpired]
    · have hexp : s.expired call.2 = false := by simpa using he
      have hcount : unexpired s (call :: calls) = unexpired s calls + 1 := by
        simp [unexpired, hexp]
      have hsame : unexpired { s with sendCounter := s.sendCounter + 1 } calls = unexpired s calls := rfl
      rw [if_neg he, hsame, hcount, handedOut_succ]
      by_cases hc : s.sendCounter = 0xFFFFFFFFFFFFFFFF
      · simp [sealData_none call.1 (Or.inr hc), hc]
      · obtain ⟨m, hm, hcounter⟩ := sealData_ok hP call.1 hexp hc
        simp [hm, Except.toOption, hcounter, hc]

theorem handedOut_eq_iff (i j : ℕ) : c0 + UInt64.ofNat i = c0 + UInt64.ofNat j ↔ i % 2 ^ 64 = j % 2 ^ 64 := by
  rw [add_right_inj, ← UInt64.toNat_inj]
  simp

theorem handedOut_nodup_iff (n : ℕ) : ((handedOut c0 n).filter fun c => c ≠ 0xFFFFFFFFFFFFFFFF).Nodup ↔
      n ≤ 2 ^ 64 ∨ (n = 2 ^ 64 + 1 ∧ c0 = 0xFFFFFFFFFFFFFFFF) := by
  rw [handedOut, List.filter_map, List.nodup_map_iff_inj_on (List.nodup_range.filter _)]
  simp only [mem_filter, mem_range, Function.comp_apply, decide_eq_true_eq, handedOut_eq_iff]
  constructor
  · intro hinj
    by_contra hbad
    obtain ⟨hlarge, hlast⟩ : 2 ^ 64 < n ∧ (n = 2 ^ 64 + 1 → c0 ≠ 0xFFFFFFFFFFFFFFFF) := by
      simpa using hbad
    by_cases hc : c0 = 0xFFFFFFFFFFFFFFFF
    · -- calls `1` and `2 ^ 64 + 1` both get the counter `0`
      subst hc
      have hn : 2 ^ 64 + 1 < n := lt_of_le_of_ne hlarge fun h => hlast h.symm rfl
      have := hinj 1 ⟨by omega, by decide⟩ (2 ^ 64 + 1) ⟨hn, by decide⟩ (by decide)
      omega
    · have h0 : c0 + UInt64.ofNat 0 = c0 := by simp
      have hround : c0 + UInt64.ofNat (2 ^ 64) = c0 := by
        rw [(handedOut_eq_iff c0 (2 ^ 64) 0).mpr (by decide), h0]
      have := hinj 0 ⟨by omega, by rwa [h0]⟩ (2 ^ 64) ⟨hlarge, by rwa [hround]⟩ (by decide)
      omega
  · rintro (hn | ⟨rfl, rfl⟩) i ⟨hi, hci⟩ j ⟨hj, hcj⟩ hij
    · rwa [Nat.mod_eq_of_lt (by omega), Nat.mod_eq_of_lt (by omega)] at hij
    · -- the only two calls a round apart are the first and the last, and both are refused
      have hne0 k (hk : k % 2 ^ 64 = 0) :
          ¬ (0xFFFFFFFFFFFFFFFF + UInt64.ofNat k : UInt64) ≠ 0xFFFFFFFFFFFFFFFF := by
        rw [(handedOut_eq_iff _ k 0).mpr (by simpa using hk)]
        decide
      have hj0 : j % 2 ^ 64 ≠ 0 := fun h => hne0 j h hcj
      omega

/-- **Nonce uniqueness, and its limit**: at most `2 ^ 64` calls before expiry, or one more if the
first met the counter that `seal` refuses. -/
theorem nonces_unique_iff (hP : P.Correct) (s : TransportSession) (calls : List (Bytes × ℕ)) :
    ((s.okCounters P calls).Nodup ∧ ((s.okCounters P calls).map nonce).Nodup) ↔ s.unexpired calls ≤ 2 ^ 64
        ∨ (s.unexpired calls = 2 ^ 64 + 1 ∧ s.sendCounter = 0xFFFFFFFFFFFFFFFF) := by
  rw [nodup_map_iff nonce_injective, and_self, okCounters_eq hP, handedOut_nodup_iff]

theorem nonces_unique_three :
    (okCounters reference (new ⟨[1], [2]⟩ .initiator 0 0) [([], 0), ([7], 1), ([], 2)]).Nodup :=
  ((nonces_unique_iff reference_correct _ _).mpr (Or.inl (by decide +kernel))).1

/-- `2 ^ 64 + 1` calls in the session's first millisecond: the atomic has wrapped, and the last call
returns `Ok` under the counter, nonce and key of the first. -/
theorem nonce_reused_after_wrap : ¬ (okCounters reference (new ⟨[1], [2]⟩ .initiator 0 0)
      (List.replicate (2 ^ 64 + 1) ([], 0))).Nodup := by
  have hcount : unexpired (new ⟨[1], [2]⟩ .initiator 0 0) (replicate (2 ^ 64 + 1) ([], 0)) = 2 ^ 64 + 1 := by
    rw [unexpired, countP_replicate, if_pos (by decide)]
  rw [okCounters_eq reference_correct, hcount, handedOut_nodup_iff]
  have hc : (new ⟨[1], [2]⟩ .initiator 0 0).sendCounter ≠ 0xFFFFFFFFFFFFFFFF := by decide
  rintro (h | ⟨-, h⟩)
  · exact absurd h (by decide)
  · exact hc h

end TransportSession

end Karst.Noise
