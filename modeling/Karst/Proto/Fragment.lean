import Karst.Crypto.Primitives
import Karst.Foundations.Fallible

/-!
# Fragments

Fragment headers, their MAC, and the splitting of a message into datagrams
(`karst-proto/src/lib.rs`, `dos.rs`).
-/

namespace Karst.Proto

open Crypto Option
open List hiding Vector

/-! ### Constants -/

def FRAGMENT_HEADER : ℕ := 24
/-- UDP payload of a datagram that fits the minimum MTU. -/
def HANDSHAKE_DATAGRAM_MAX : ℕ := 1280 - 40 - 8
def FRAGMENT_PAYLOAD_MAX : ℕ := HANDSHAKE_DATAGRAM_MAX - FRAGMENT_HEADER
def MAX_FRAGMENTS : ℕ := 4
def TRANSPORT_PAYLOAD_MAX : ℕ := 16 + 1280 + 16
def TRANSPORT_DATAGRAM_MAX : ℕ := FRAGMENT_HEADER + TRANSPORT_PAYLOAD_MAX
def FRAG_MAC_LEN : ℕ := 16

inductive MessageType where
  | handshakeInit
  | handshakeResponse
  | cookieReply
  | transportData
  deriving DecidableEq

namespace MessageType

def toByte : MessageType → UInt8
  | .handshakeInit => 0x01
  | .handshakeResponse => 0x02
  | .cookieReply => 0x03
  | .transportData => 0x04

end MessageType

inductive DecodeError where
  | tooShort
  | tooLong
  | invalidFragmentCounts

/-! ### Fragment MAC -/

def mac1Key (P : Primitives) (responderStaticPk : Bytes) : Bytes :=
  P.sha512 (ascii "Karst mac1 v1" ++ responderStaticPk)

def coversPayload (msgType : UInt8) : Bool :=
  msgType == MessageType.handshakeInit.toByte || msgType == MessageType.handshakeResponse.toByte

/-- `HMAC(key, type ‖ id ‖ idx ‖ count [‖ payload])`, truncated. -/
def fragMac (P : Primitives) (macKey : Bytes) (msgType : UInt8) (reassemblyId : UInt32)
    (idx count : UInt8) (payload : Bytes) : Vector UInt8 FRAG_MAC_LEN :=
  fit FRAG_MAC_LEN (P.hmacSha512 macKey ([msgType] ++ leBytes 4 reassemblyId.toNat ++ [idx, count]
    ++ if coversPayload msgType then payload else []))

def verifyFragMac (P : Primitives) (macKey : Bytes) (msgType : UInt8) (reassemblyId : UInt32)
    (idx count : UInt8) (payload : Bytes) (got : Vector UInt8 FRAG_MAC_LEN) : Bool :=
  fragMac P macKey msgType reassemblyId idx count payload == got

/-! ### Headers -/

structure FragmentHeader where
  reassemblyId : UInt32
  idx : UInt8
  count : UInt8
  fragMac : Vector UInt8 FRAG_MAC_LEN

namespace FragmentHeader

/-- `idx` in bits 7..6, `count - 1` in bits 5..4. -/
def flags (idx count : UInt8) : UInt8 :=
  ((idx &&& 0b11) <<< 6) ||| (((if count = 0 then 0 else count - 1) &&& 0b11) <<< 4)

def encode (hdr : FragmentHeader) : Bytes :=
  leBytes 4 hdr.reassemblyId.toNat ++ [flags hdr.idx hdr.count, 0, 0, 0] ++ hdr.fragMac.toList

/-- Reserved fields are ignored rather than rejected. -/
def decode (buf : Bytes) : Except DecodeError FragmentHeader := do
  if TRANSPORT_DATAGRAM_MAX < buf.length then .error .tooLong else
  let (hdr, _) ← okOr .tooShort (cut FRAGMENT_HEADER buf)
  let fl := hdr.getD 4 0
  let idx := fl >>> 6
  let count := ((fl >>> 4) &&& 0b11) + 1
  if count ≤ idx then .error .invalidFragmentCounts else
  -- only an unfragmented message may exceed the minimum-MTU budget
  if 1 < count ∧ HANDSHAKE_DATAGRAM_MAX < buf.length then .error .tooLong else
  return ⟨UInt32.ofNat (leValue (hdr.take 4)), idx, count, fit FRAG_MAC_LEN (hdr.drop 8)⟩

end FragmentHeader

def splitDatagram (datagram : Bytes) : Except DecodeError (FragmentHeader × Bytes) := do
  let hdr ← FragmentHeader.decode datagram
  let (_, payload) ← okOr .tooShort (cut FRAGMENT_HEADER datagram)
  return (hdr, payload)

/-! ### Splitting a message -/

/-- Fragments required to carry `len` bytes, if within the cap. -/
def fragmentsNeeded (len : ℕ) : Option ℕ :=
  let n := (len + FRAGMENT_PAYLOAD_MAX - 1) / FRAGMENT_PAYLOAD_MAX
  if n ≤ MAX_FRAGMENTS then some n else none

def fragmentHeader (P : Primitives) (msgType : MessageType) (reassemblyId : UInt32)
    (macKey : Bytes) (count idx : ℕ) (payload : Bytes) : FragmentHeader :=
  ⟨reassemblyId, UInt8.ofNat idx, UInt8.ofNat count,
    fragMac P macKey msgType.toByte reassemblyId (UInt8.ofNat idx) (UInt8.ofNat count) payload⟩

def fragmentAt (P : Primitives) (msgType : MessageType) (reassemblyId : UInt32) (msg macKey : Bytes)
    (budget count idx : ℕ) : Option Bytes :=
  let start := idx * budget
  let stop := min (start + budget) msg.length
  if start ≤ stop then
    let payload := (msg.drop start).take (stop - start)
    some ((fragmentHeader P msgType reassemblyId macKey count idx payload).encode ++ payload)
  else none

/-- Payload budget and fragment count.  Transport data is refused rather than split. -/
def plan (msgType : MessageType) (len : ℕ) : Option (ℕ × ℕ) :=
  if msgType = .transportData then
    if len ≤ TRANSPORT_PAYLOAD_MAX then some (TRANSPORT_PAYLOAD_MAX, 1) else none
  else (fragmentsNeeded len).map fun n => (FRAGMENT_PAYLOAD_MAX, n)

def fragment (P : Primitives) (msgType : MessageType) (reassemblyId : UInt32) (msg macKey : Bytes) :
    Option (List Bytes) := do
  let (budget, count) ← plan msgType msg.length
  (List.range count).mapM (fragmentAt P msgType reassemblyId msg macKey budget count)

/-! ### Headers on the wire -/

namespace FragmentHeader

structure InRange (hdr : FragmentHeader) (len : ℕ) : Prop where
  idx_lt : hdr.idx < hdr.count
  count_le : hdr.count ≤ 4
  len_le : len ≤ TRANSPORT_PAYLOAD_MAX
  fragmented : 1 < hdr.count → len ≤ FRAGMENT_PAYLOAD_MAX

theorem encode_length (hdr : FragmentHeader) : hdr.encode.length = FRAGMENT_HEADER := by
  simp only [encode, length_append, leBytes_length, Vector.length_toList]
  rfl

theorem flags_idx_count {idx count : UInt8} (hidx : idx < count) (hcount : count ≤ 4) :
    flags idx count >>> 6 = idx ∧ ((flags idx count >>> 4) &&& 0b11) + 1 = count := by
  have hi : idx.toNat < count.toNat := UInt8.lt_iff_toNat_lt.mp hidx
  have hc : count.toNat ≤ 4 := UInt8.le_iff_toNat_le.mp hcount
  rw [← UInt8.ofNat_toNat (x := idx), ← UInt8.ofNat_toNat (x := count)]
  generalize idx.toNat = i at hi
  generalize count.toNat = c at hi hc
  -- ten pairs are left
  interval_cases c <;> interval_cases i <;> decide

theorem encode_fields (hdr : FragmentHeader) : hdr.encode.getD 4 0 = flags hdr.idx hdr.count
      ∧ UInt32.ofNat (leValue (hdr.encode.take 4)) = hdr.reassemblyId
      ∧ fit FRAG_MAC_LEN (hdr.encode.drop 8) = hdr.fragMac := by
  have h4 : (leBytes 4 hdr.reassemblyId.toNat).length = 4 := leBytes_length 4 _
  have hlt : hdr.reassemblyId.toNat < 256 ^ 4 := hdr.reassemblyId.toNat_lt
  have h8 : (leBytes 4 hdr.reassemblyId.toNat ++ [flags hdr.idx hdr.count, 0, 0, 0]).length = 8 := by
    simp
  refine ⟨?_, ?_, ?_⟩
  · rfl
  · rw [encode, append_assoc, take_left' h4, leValue_leBytes, Nat.mod_eq_of_lt hlt, UInt32.ofNat_toNat]
  · rw [encode, drop_left' h8]
    simpa using fit_append hdr.fragMac []

/-- **A header in range survives the wire**, and its payload with it. -/
theorem splitDatagram_encode {hdr : FragmentHeader} {payload : Bytes} (h : hdr.InRange payload.length) :
    splitDatagram (hdr.encode ++ payload) = .ok (hdr, payload) := by
  have hlen : (hdr.encode ++ payload).length = FRAGMENT_HEADER + payload.length := by
    rw [length_append, encode_length]
  have hcut := cut_append (b := payload) (encode_length hdr)
  obtain ⟨hidx, hcount⟩ := flags_idx_count h.idx_lt h.count_le
  obtain ⟨hflags, hid, hmac⟩ := encode_fields hdr
  have hlong : ¬ TRANSPORT_DATAGRAM_MAX < (hdr.encode ++ payload).length := by
    have := h.len_le
    rw [hlen, TRANSPORT_DATAGRAM_MAX]
    omega
  have hbudget : ¬ (1 < hdr.count ∧ HANDSHAKE_DATAGRAM_MAX < (hdr.encode ++ payload).length) := by
    rintro ⟨h1, h2⟩
    have := h.fragmented h1
    unfold FRAGMENT_PAYLOAD_MAX HANDSHAKE_DATAGRAM_MAX FRAGMENT_HEADER at *
    omega
  have hdecode : decode (hdr.encode ++ payload) = .ok hdr := by
    unfold decode
    rw [if_neg hlong, hcut]
    simp only [okOr_some, ok_bind, hflags, hidx, hcount, hid, hmac]
    rw [if_neg (UInt8.not_le.mpr h.idx_lt), if_neg hbudget]
    rfl
  unfold splitDatagram
  rw [hdecode, hcut]
  rfl

end FragmentHeader

/-! ### What `fragment` produces -/

def payloadAt (budget : ℕ) (msg : Bytes) (i : ℕ) : Bytes := (msg.drop (i * budget)).take budget

/-- How a message of `len` bytes is cut: every fragment but the last is full, and only a message in
one piece may use the larger budget. -/
structure Layout (budget count len : ℕ) : Prop where
  count_le : count ≤ MAX_FRAGMENTS
  budget_le : budget ≤ TRANSPORT_PAYLOAD_MAX
  fragmented : 1 < count → budget = FRAGMENT_PAYLOAD_MAX
  covers : len ≤ count * budget
  full : ∀ i, i + 1 < count → (i + 1) * budget ≤ len
  nonempty : 0 < len → 0 < count

theorem layout_transport {len : ℕ} (h : len ≤ TRANSPORT_PAYLOAD_MAX) :
    Layout TRANSPORT_PAYLOAD_MAX 1 len where
  count_le := by decide
  budget_le := le_rfl
  fragmented h1 := absurd h1 (by decide)
  covers := by omega
  full i hi := absurd hi (by omega)
  nonempty _ := by decide

theorem layout_fragmented {len n : ℕ} (h : fragmentsNeeded len = some n) :
    Layout FRAGMENT_PAYLOAD_MAX n len := by
  unfold fragmentsNeeded at h
  simp only [ite_none_right_eq_some, some.injEq] at h
  obtain ⟨hle, hn⟩ := h
  have hbudget : FRAGMENT_PAYLOAD_MAX = 1208 := rfl
  rw [hbudget] at hle hn ⊢
  refine ⟨hn ▸ hle, by decide, fun _ => rfl, by omega, fun i hi => by omega, by omega⟩

theorem layout_plan {ty : MessageType} {len budget count : ℕ}
    (h : plan ty len = some (budget, count)) : Layout budget count len := by
  unfold plan at h
  split at h
  · simp only [ite_none_right_eq_some, some.injEq, Prod.mk.injEq] at h
    obtain ⟨hlen, rfl, rfl⟩ := h
    exact layout_transport hlen
  · obtain ⟨n, hn, hpair⟩ := map_eq_some_iff.mp h
    obtain ⟨rfl, rfl⟩ := hpair
    exact layout_fragmented hn

section

variable {P : Primitives} {ty : MessageType} {id : UInt32} {msg macKey : Bytes} {budget count : ℕ}

theorem payloadAt_length (budget : ℕ) (msg : Bytes) (i : ℕ) :
    (payloadAt budget msg i).length = min budget (msg.length - i * budget) := by
  simp [payloadAt]

theorem fragmentAt_eq {i : ℕ} (h : i * budget ≤ msg.length) : fragmentAt P ty id msg macKey budget count i
      = some ((fragmentHeader P ty id macKey count i (payloadAt budget msg i)).encode
          ++ payloadAt budget msg i) := by
  have hstop : i * budget ≤ min (i * budget + budget) msg.length := by omega
  have hpayload : (msg.drop (i * budget)).take (min (i * budget + budget) msg.length - i * budget)
      = payloadAt budget msg i := by
    rw [payloadAt, take_eq_take_iff, length_drop]
    omega
  simp only [fragmentAt, if_pos hstop, hpayload]

theorem mapM_eq_some {α β : Type} {f : α → Option β} {g : α → β} {l : List α}
    (h : ∀ a ∈ l, f a = some (g a)) : l.mapM f = some (l.map g) := by
  induction l with
  | nil => rfl
  | cons a l ih =>
    rw [mapM_cons, h a (by simp), ih fun b hb => h b (by simp [hb])]
    rfl

def datagramAt (P : Primitives) (ty : MessageType) (id : UInt32) (msg macKey : Bytes)
    (budget count i : ℕ) : Bytes :=
  (fragmentHeader P ty id macKey count i (payloadAt budget msg i)).encode ++ payloadAt budget msg i

theorem fragment_of_plan (h : plan ty msg.length = some (budget, count)) : fragment P ty id msg macKey
      = some ((range count).map (datagramAt P ty id msg macKey budget count)) := by
  have hl := layout_plan h
  rw [fragment, h]
  apply mapM_eq_some
  intro i hi
  apply fragmentAt_eq
  cases i with
  | zero => omega
  | succ i => exact hl.full i (mem_range.mp hi)

/-- **What `fragment` produces**, datagram by datagram. -/
theorem fragment_eq_some {ds : List Bytes} (h : fragment P ty id msg macKey = some ds) :
    ∃ budget count, Layout budget count msg.length
      ∧ ds = (range count).map (datagramAt P ty id msg macKey budget count) := by
  obtain ⟨⟨budget, count⟩, hplan, -⟩ := bind_eq_some_iff.mp h
  rw [fragment_of_plan hplan] at h
  exact ⟨budget, count, layout_plan hplan, (some.inj h).symm⟩

theorem splitDatagram_datagramAt (hl : Layout budget count msg.length) {i : ℕ} (hi : i < count) :
    splitDatagram (datagramAt P ty id msg macKey budget count i)
      = .ok (fragmentHeader P ty id macKey count i (payloadAt budget msg i), payloadAt budget msg i) := by
  have hcount : count ≤ 4 := hl.count_le
  have hlen := payloadAt_length budget msg i
  apply FragmentHeader.splitDatagram_encode
  refine ⟨?_, ?_, ?_, ?_⟩
  · rw [UInt8.lt_iff_toNat_lt]
    simp only [fragmentHeader, UInt8.toNat_ofNat']
    omega
  · exact (Nat.mod_le _ _).trans hcount
  · have := hl.budget_le
    omega
  · intro h1
    rw [UInt8.lt_iff_toNat_lt] at h1
    simp only [fragmentHeader, UInt8.toNat_ofNat'] at h1
    have hone : (1 : UInt8).toNat = 1 := rfl
    have := hl.fragmented (by omega)
    omega

theorem payloads_join (h : msg.length ≤ count * budget) :
    ((range count).map (payloadAt budget msg)).flatten = msg := by
  have htake n : ((range n).map (payloadAt budget msg)).flatten = msg.take (n * budget) := by
    induction n with
    | zero => simp
    | succ n ih =>
      rw [range_succ, map_append, flatten_append, ih, Nat.succ_mul, take_add]
      simp [payloadAt]
  rw [htake, take_of_length_le h]

end

end Karst.Proto
