import Karst.Foundations.Fallible
import Karst.Noise.ReplayWindow
import Karst.Noise.SymmetricState

/-!
# The transport phase

`TransportSession` of `karst-noise/src/transport.rs`.  Sealing takes a counter from an atomic and
opening records one in the replay window, both through `&self`; here each call returns the session
as it leaves it.
-/

namespace Karst.Noise

open Crypto
open List hiding Vector

def REKEY_AFTER_MESSAGES : UInt64 := (1 : UInt64) <<< 60
def REKEY_AFTER_MS : ℕ := 120000
/-- Hard limit past which a session's keys must not be used at all. -/
def REJECT_AFTER_MS : ℕ := 180000
def HEADER_LEN : ℕ := 16
def TAG_LEN : ℕ := 16
def PAD_TO : ℕ := 16

inductive Role where
  | initiator
  | responder
  deriving DecidableEq

inductive TransportError where
  | malformed
  | authenticationFailed
  | replay
  | expired
  deriving DecidableEq

/-- An established session's send and receive halves.  A cipher is its key. -/
structure TransportSession where
  sendCipher : Bytes
  recvCipher : Bytes
  sendCounter : UInt64
  window : ReplayWindow
  establishedMs : ℕ
  peerIndex : UInt32

/-- The nonce of a counter: `LE32(0) ‖ LE64(counter)`. -/
def nonce (counter : UInt64) : Bytes := List.replicate 4 0 ++ leBytes 8 counter.toNat

namespace TransportSession

def new (keys : TransportKeys) (role : Role) (peerIndex : UInt32) (nowMs : ℕ) : TransportSession :=
  let (sendKey, recvKey) := match role with
    | .initiator => (keys.initiatorToResponder, keys.responderToInitiator)
    | .responder => (keys.responderToInitiator, keys.initiatorToResponder)
  ⟨sendKey, recvKey, 0, ReplayWindow.new, nowMs, peerIndex⟩

def needsRekey (s : TransportSession) (nowMs : ℕ) : Bool :=
  decide (REKEY_AFTER_MESSAGES ≤ s.sendCounter) || decide (REKEY_AFTER_MS ≤ nowMs - s.establishedMs)

def expired (s : TransportSession) (nowMs : ℕ) : Bool :=
  decide (REJECT_AFTER_MS ≤ nowMs - s.establishedMs)

def dataHeader (peerIndex : UInt32) (counter : UInt64) : Bytes :=
  [0x04] ++ [0, 0, 0] ++ leBytes 4 peerIndex.toNat ++ leBytes 8 counter.toNat

def padded (plaintext : Bytes) : Bytes :=
  plaintext ++ List.replicate ((PAD_TO - plaintext.length % PAD_TO) % PAD_TO) 0

/-- Seal a payload.  The counter is taken before its limit is tested, and the atomic wraps. -/
def sealData (P : Primitives) (s : TransportSession) (plaintext : Bytes) (nowMs : ℕ) :
    TransportSession × Except TransportError Bytes :=
  if s.expired nowMs then (s, .error .expired)
  else
    let counter := s.sendCounter
    let s := { s with sendCounter := counter + 1 }
    if counter = 0xFFFFFFFFFFFFFFFF then (s, .error .expired)
    else
      let hdr := dataHeader s.peerIndex counter
      match P.encrypt s.sendCipher (nonce counter) hdr (padded plaintext) with
      | none => (s, .error .authenticationFailed)
      | some (ct, tag) => (s, .ok (hdr ++ ct ++ tag))

/-- A message cut into header, counter, ciphertext and tag. -/
structure Frame where
  header : Bytes
  counter : UInt64
  ciphertext : Bytes
  tag : Bytes

def Frame.parse (msg : Bytes) : Except TransportError Frame := do
  let (header, body) ← okOr .malformed (cut HEADER_LEN msg)
  if header.head? ≠ some 0x04 ∨ body.length < TAG_LEN then .error .malformed else
  let counter := UInt64.ofNat (leValue ((header.drop 8).take 8))
  let split := body.length - TAG_LEN
  return ⟨header, counter, body.take split, body.drop split⟩

def Frame.decrypt (P : Primitives) (key : Bytes) (f : Frame) : Option Bytes :=
  P.decrypt key (nonce f.counter) f.header f.ciphertext f.tag

/-- Open a message, touching the replay window only once the AEAD has decided. -/
def openData (P : Primitives) (s : TransportSession) (msg : Bytes) (nowMs : ℕ) :
    TransportSession × Except TransportError Bytes :=
  if s.expired nowMs then (s, .error .expired)
  else
    match Frame.parse msg with
    | .error e => (s, .error e)
    | .ok f =>
      match f.decrypt P s.recvCipher with
      | none => (s, .error .authenticationFailed)
      | some pt =>
        let (accepted, window) := s.window.accept f.counter
        let s := { s with window }
        if accepted then (s, .ok pt) else (s, .error .replay)

/-! ### Framing -/

variable (idx : UInt32) (c : UInt64)

@[simp] theorem dataHeader_length : (dataHeader idx c).length = HEADER_LEN := by
  simp [dataHeader, HEADER_LEN]

theorem dataHeader_counter : UInt64.ofNat (leValue (((dataHeader idx c).drop 8).take 8)) = c := by
  have hdrop : ((dataHeader idx c).drop 8).take 8 = leBytes 8 c.toNat := by
    have h8 : ([0x04] ++ [0, 0, 0] ++ leBytes 4 idx.toNat : Bytes).length = 8 := by simp
    rw [dataHeader, drop_left' h8, take_of_length_le (by simp)]
  have hlt : c.toNat < 256 ^ 8 := c.toNat_lt
  rw [hdrop, leValue_leBytes, Nat.mod_eq_of_lt hlt, UInt64.ofNat_toNat]

theorem Frame.parse_append (ct : Bytes) {tag : Bytes} (htag : tag.length = TAG_LEN) :
    Frame.parse (dataHeader idx c ++ ct ++ tag) = .ok ⟨dataHeader idx c, c, ct, tag⟩ := by
  have hguard : ¬ ((dataHeader idx c).head? ≠ some 0x04 ∨ (ct ++ tag).length < TAG_LEN) := by
    simp [dataHeader, htag]
  have hsplit : (ct ++ tag).length - TAG_LEN = ct.length := by
    rw [length_append]
    omega
  unfold Frame.parse
  rw [append_assoc, cut_append (dataHeader_length idx c), okOr_some, ok_bind]
  simp only [hguard, if_false, hsplit, take_left, drop_left, dataHeader_counter]
  rfl

variable {m : Bytes}

theorem Frame.head_of_parse {f : Frame} (h : Frame.parse m = .ok f) : m.head? = some 0x04 := by
  unfold Frame.parse at h
  cases hcut : cut HEADER_LEN m with
  | none =>
    rw [hcut] at h
    cases h
  | some r =>
    obtain ⟨header, body⟩ := r
    obtain ⟨rfl, hlen⟩ := cut_eq_some_iff.mp hcut
    simp only [hcut, okOr_some, ok_bind] at h
    split at h
    · cases h
    next hguard =>
      have hhead : header.head? = some 0x04 := by
        by_contra hne
        exact hguard (Or.inl hne)
      rw [head?_append, hhead]
      rfl

theorem nonce_injective : Function.Injective nonce := by
  intro a b h
  have hle : leBytes 8 a.toNat = leBytes 8 b.toNat := append_cancel_left h
  exact UInt64.toNat_inj.mp (leBytes_inj a.toNat_lt b.toNat_lt hle)

/-! ### One call -/

variable {P : Primitives} {s : TransportSession}

theorem sealData_fst (p : Bytes) (now : ℕ) : (s.sealData P p now).1
      = if s.expired now then s else { s with sendCounter := s.sendCounter + 1 } := by
  unfold sealData
  split
  · rfl
  · dsimp only
    split
    · rfl
    · split <;> rfl

theorem sealData_eq_ok {p : Bytes} {now : ℕ} : (s.sealData P p now).2 = .ok m ↔
      s.expired now = false ∧ s.sendCounter ≠ 0xFFFFFFFFFFFFFFFF ∧
        ∃ ct tag, P.encrypt s.sendCipher (nonce s.sendCounter) (dataHeader s.peerIndex s.sendCounter)
            (padded p) = some (ct, tag) ∧ m = dataHeader s.peerIndex s.sendCounter ++ ct ++ tag := by
  unfold sealData
  by_cases he : s.expired now = true
  · simp [he]
  · by_cases hc : s.sendCounter = 0xFFFFFFFFFFFFFFFF
    · simp [he, hc]
    · simp only [he, hc, if_false, Bool.false_eq_true]
      cases hx : P.encrypt s.sendCipher (nonce s.sendCounter)
          (dataHeader s.peerIndex s.sendCounter) (padded p) with
      | none => simp
      | some r =>
        obtain ⟨ct, tag⟩ := r
        simp [eq_comm, hc]

theorem openData_eq_ok {pt : Bytes} {now : ℕ} : (s.openData P m now).2 = .ok pt ↔
      s.expired now = false ∧ ∃ f, Frame.parse m = .ok f ∧ f.decrypt P s.recvCipher = some pt
        ∧ (s.window.accept f.counter).1 = true := by
  unfold openData
  by_cases he : s.expired now = true
  · simp [he]
  · simp only [he, if_false, Bool.false_eq_true]
    cases hf : Frame.parse m with
    | error e => simp
    | ok f =>
      cases hd : f.decrypt P s.recvCipher with
      | none => simp [hd]
      | some q =>
        by_cases ha : (s.window.accept f.counter).1 = true <;> simp [hd, ha]

end TransportSession

theorem ReplayWindow.accept_of_not {w : ReplayWindow} {c : UInt64}
    (h : (w.accept c).1 = false) : (w.accept c).2 = w := by
  unfold ReplayWindow.accept at h ⊢
  by_cases hlt : w.highest < c
  · simp [hlt] at h
  · by_cases hold : REPLAY_WINDOW ≤ (w.highest - c).toNat
    · simp [hlt, hold]
    · by_cases hget : w.get (w.highest - c).toNat = true
      · simp [hlt, hold, hget]
      · simp [hlt, hold, hget] at h

namespace TransportSession

variable {P : Primitives} {s : TransportSession}

variable {m : Bytes} {now : ℕ}

/-- **A refused message leaves no trace.** -/
theorem openData_error {e : TransportError} (h : (s.openData P m now).2 = .error e) :
    (s.openData P m now).1 = s := by
  unfold openData at h ⊢
  by_cases he : s.expired now = true
  · simp [he]
  · simp only [he, if_false, Bool.false_eq_true] at h ⊢
    cases hf : Frame.parse m with
    | error e => rfl
    | ok f =>
      rw [hf] at h
      cases hd : f.decrypt P s.recvCipher with
      | none => simp [hd]
      | some q =>
        by_cases ha : (s.window.accept f.counter).1 = true
        · simp [hd, ha] at h
        · have hw := ReplayWindow.accept_of_not (by simpa using ha)
          simp [hd, ha, hw]

variable {f : Frame}

theorem expired_of_openData (h : (s.openData P m now).2 = .error .expired) : s.expired now = true := by
  by_contra he
  unfold openData at h
  simp only [he] at h
  cases hf : Frame.parse m with
  | error e =>
    obtain rfl : e = .expired := by simpa [hf] using h
    rcases bind_eq_error.mp hf with hcut | ⟨parts, -, hf⟩
    · cases hc : cut HEADER_LEN m <;> rw [hc] at hcut <;> cases hcut
    · dsimp only at hf
      split at hf <;> cases hf
  | ok f =>
    simp only [hf, if_false] at h
    split at h
    · cases h
    · split at h <;> cases h

theorem openData_ok_fst {pt : Bytes} (h : (s.openData P m now).2 = .ok pt) (hf : Frame.parse m = .ok f) :
    (s.openData P m now).1 = { s with window := (s.window.accept f.counter).2 } := by
  obtain ⟨he, f', hf', hd, ha⟩ := openData_eq_ok.mp h
  obtain rfl : f = f' := by simpa using hf.symm.trans hf'
  unfold openData
  simp [he, hf, hd, ha]

/-- What a session keeps for life: its keys and the time it was made. -/
structure Same (s t : TransportSession) : Prop where
  sendCipher : t.sendCipher = s.sendCipher
  recvCipher : t.recvCipher = s.recvCipher
  establishedMs : t.establishedMs = s.establishedMs

theorem Same.refl (s : TransportSession) : Same s s := ⟨rfl, rfl, rfl⟩

theorem Same.trans (s t u : TransportSession) (hst : Same s t) (htu : Same t u) : Same s u :=
  ⟨htu.sendCipher.trans hst.sendCipher, htu.recvCipher.trans hst.recvCipher,
    htu.establishedMs.trans hst.establishedMs⟩

theorem sealData_same (p : Bytes) (now : ℕ) : Same s (s.sealData P p now).1 := by
  rw [sealData_fst]
  split <;> exact ⟨rfl, rfl, rfl⟩

theorem openData_same (m : Bytes) (now : ℕ) : Same s (s.openData P m now).1 := by
  cases h : (s.openData P m now).2 with
  | error e =>
    rw [openData_error h]
    exact Same.refl s
  | ok pt =>
    obtain ⟨-, f, hf, -, -⟩ := openData_eq_ok.mp h
    rw [openData_ok_fst h hf]
    exact ⟨rfl, rfl, rfl⟩

theorem decrypt_sealed (hP : P.Correct) {p : Bytes} (h : (s.sealData P p now).2 = .ok m) :
    ∃ f, Frame.parse m = .ok f ∧ f.counter = s.sendCounter ∧ f.decrypt P s.sendCipher = some (padded p) := by
  obtain ⟨-, -, ct, tag, henc, rfl⟩ := sealData_eq_ok.mp h
  have htag := (P.encrypt_length _ _ _ _ _ _ henc).2
  refine ⟨_, Frame.parse_append _ _ ct htag, rfl, ?_⟩
  obtain ⟨ct', tag', henc', hdec⟩ := hP.decrypt_encrypt s.sendCipher (nonce s.sendCounter)
    (dataHeader s.peerIndex s.sendCounter) (padded p)
  rw [henc] at henc'
  obtain ⟨rfl, rfl⟩ := henc'
  exact hdec

theorem exists_frame (hP : P.Correct) (key : Bytes) (c : UInt64) :
    ∃ m f pt, Frame.parse m = .ok f ∧ f.counter = c ∧ f.decrypt P key = some pt
      ∧ ∀ k, P.Separates key k → f.decrypt P k = none := by
  obtain ⟨ct, tag, henc, hdec⟩ := hP.decrypt_encrypt key (nonce c) (dataHeader 0 c) []
  have htag := (P.encrypt_length _ _ _ _ _ _ henc).2
  exact ⟨_, _, [], Frame.parse_append 0 c ct htag, rfl, hdec, fun k hk => hk _ _ _ _ _ henc⟩

theorem decrypt_separated {p k : Bytes} (h : (s.sealData P p now).2 = .ok m)
    (hsep : P.Separates s.sendCipher k) (hf : Frame.parse m = .ok f) : f.decrypt P k = none := by
  obtain ⟨-, -, ct, tag, henc, rfl⟩ := sealData_eq_ok.mp h
  have htag := (P.encrypt_length _ _ _ _ _ _ henc).2
  rw [Frame.parse_append _ _ ct htag] at hf
  obtain rfl := Except.ok.inj hf
  exact hsep _ _ _ _ _ henc

end TransportSession

end Karst.Noise
