import Karst.Crypto.Reference
import Karst.Disco.Messages

/-!
# The discovery codec

Encoding and decoding of AVEN datagrams are inverse to one another.  Each reader is described by one
equivalence: it accepts the encodings of the values within its limits, and nothing else.
-/

namespace Karst.Disco

open Crypto Net Proto Except SocketAddr Header Nat
open List hiding Vector

/-! ### Endpoints on the wire -/

namespace Endpoint

/-- What an endpoint of the wire can be: no flow label and no scope, and no IPv4 address in the form
of an IPv6 one. -/
def OnWire (e : Endpoint) : Prop :=
  match e.addr with
  | .v4 _ _ => True
  | .v6 a _ flowinfo scopeId => toIpv4Mapped a = none ∧ flowinfo = 0 ∧ scopeId = 0

/-- No IPv4 address in the form of an IPv6 one. -/
def IpOnWire : IpAddr → Prop
  | .v4 _ => True
  | .v6 a => toIpv4Mapped a = none

theorem onWire_iff {e : Endpoint} : e.OnWire ↔ IpOnWire e.addr.ip ∧ new e.addr.ip e.addr.port = e.addr := by
  rcases e with ⟨addr⟩
  cases addr with
  | v4 a p => simp [OnWire, IpOnWire, ip, port, new]
  | v6 a p f s =>
    simp [OnWire, IpOnWire, ip, port, new, eq_comm]

@[simp] theorem encodeIp_length (a : IpAddr) : (encodeIp a).length = 17 := by
  cases a <;> simp [encodeIp, beBytes_length]

@[simp] theorem encode_length (e : Endpoint) : e.encode.length = ENDPOINT_LEN := by
  rw [encode, length_append, encodeIp_length, beBytes_length]
  rfl

theorem decodeIp_eq_ok {family : UInt8} {addr : Vector UInt8 16} {ip : IpAddr} :
    decodeIp family addr = .ok ip ↔ IpOnWire ip ∧ family :: addr.toList = encodeIp ip := by
  have hlen : addr.toList.length = 16 := by simp
  constructor
  · intro h
    unfold decodeIp at h
    split at h
    · rename_i hfamily
      obtain ⟨⟨v4, pad⟩, hcut, h⟩ := bind_eq_ok.mp h
      obtain ⟨haddr, hv4⟩ := cut_eq_some_iff.mp (okOr_eq_ok.mp hcut)
      obtain ⟨hpad, h⟩ := guard_eq_ok.mp h
      obtain ⟨octets, hoctets, h⟩ := bind_eq_ok.mp h
      rw [okOr_eq_ok, firstChunk_eq_some_of_length hv4] at hoctets
      rw [any_ne_zero, not_not] at hpad
      have hpadlen : pad.length = 12 := by
        rw [haddr, length_append, hv4] at hlen
        omega
      rw [← ok.inj h]
      refine ⟨trivial, ?_⟩
      rw [encodeIp, beBytes_ofNat_beValue (by norm_num) (by simp), hfamily, haddr, hoctets, hpad,
        hpadlen]
    · split at h
      · rename_i hfamily
        obtain ⟨hmapped, h⟩ := guard_eq_ok.mp h
        rw [← ok.inj h]
        refine ⟨by simpa [IpOnWire] using hmapped, ?_⟩
        rw [encodeIp, beBytes_ofNat_beValue (by norm_num) hlen, hfamily]
      · cases h
  · intro h
    obtain ⟨hwire, henc⟩ := h
    cases ip with
    | v4 a =>
      obtain ⟨rfl, haddr⟩ := cons.inj henc
      have hoctets : (beBytes 4 a.toNat).length = 4 := beBytes_length 4 _
      rw [decodeIp, if_pos rfl, haddr, cut_append hoctets, okOr_some, ok_bind]
      refine guard_eq_ok.mpr ⟨by decide, ?_⟩
      rw [firstChunk_of_length hoctets, okOr_some, ok_bind, toList_fit hoctets,
        ofNat_beValue_beBytes (by norm_num)]
      rfl
    | v6 a =>
      obtain ⟨rfl, haddr⟩ := cons.inj henc
      rw [decodeIp, if_neg (by decide), if_pos rfl, haddr, ofNat_beValue_beBytes (by norm_num)]
      show (if (toIpv4Mapped a).isSome = true then _ else _) = _
      rw [show toIpv4Mapped a = none from hwire]
      rfl

theorem exists_parts (buf : Vector UInt8 ENDPOINT_LEN) :
    ∃ (family : UInt8) (addr : Vector UInt8 16) (port : Vector UInt8 2),
      buf.toList = family :: (addr.toList ++ port.toList) := by
  have hlen : buf.toList.length = 19 := Vector.length_toList
  cases hbuf : buf.toList with
  | nil =>
    rw [hbuf] at hlen
    cases hlen
  | cons family rest =>
    rw [hbuf, length_cons] at hlen
    have haddr : (rest.take 16).length = 16 := length_take_of_le (by omega)
    have hport : (rest.drop 16).length = 2 := by
      rw [length_drop]
      omega
    refine ⟨family, fit 16 (rest.take 16), fit 2 (rest.drop 16), ?_⟩
    rw [toList_fit haddr, toList_fit hport, take_append_drop]

theorem decode_parts {buf : Vector UInt8 ENDPOINT_LEN} {family : UInt8} {addr : Vector UInt8 16}
    {port : Vector UInt8 2} (h : buf.toList = family :: (addr.toList ++ port.toList)) :
    decode buf = decodeIp family addr >>= fun ip =>
      .ok ⟨.new ip (UInt16.ofNat (beValue port.toList))⟩ := by
  unfold decode
  rw [h]
  show (okOr Error.malformed (firstChunk 16 (addr.toList ++ port.toList)) >>= fun addr => _) = _
  rw [firstChunk_append, okOr_some, ok_bind]
  show (okOr Error.malformed (lastChunk 2 (addr.toList ++ port.toList)) >>= fun port => _) = _
  rw [lastChunk_append, okOr_some, ok_bind]
  rfl

theorem port_roundtrip (p : UInt16) : UInt16.ofNat (beValue (beBytes 2 p.toNat)) = p := by
  rw [beValue_beBytes (show p.toNat < 256 ^ 2 from p.toNat_lt), UInt16.ofNat_toNat]

theorem port_bytes (port : Vector UInt8 2) :
    beBytes 2 (UInt16.ofNat (beValue port.toList)).toNat = port.toList := by
  have hlen : port.toList.length = 2 := by simp
  have hlt : beValue port.toList < 2 ^ 16 := beValue_lt hlen
  rw [UInt16.toNat_ofNat_of_lt' hlt, beBytes_beValue hlen]

theorem decode_eq_ok {buf : Vector UInt8 ENDPOINT_LEN} {e : Endpoint} :
    decode buf = .ok e ↔ e.OnWire ∧ buf.toList = e.encode := by
  obtain ⟨family, addr, port, hparts⟩ := exists_parts buf
  rw [decode_parts hparts, bind_eq_ok, hparts, onWire_iff]
  constructor
  · intro h
    obtain ⟨ip, hip, he⟩ := h
    obtain ⟨hwire, henc⟩ := decodeIp_eq_ok.mp hip
    rw [← ok.inj he]
    refine ⟨⟨by simpa using hwire, by simp⟩, ?_⟩
    rw [encode, ip_new, port_new, ← henc, port_bytes, cons_append]
  · intro h
    obtain ⟨⟨hwire, hnew⟩, henc⟩ := h
    rw [encode, ← cons_append] at henc
    obtain ⟨haddr, hport⟩ := append_inj henc (by simp)
    refine ⟨e.addr.ip, decodeIp_eq_ok.mpr ⟨hwire, haddr⟩, ?_⟩
    rw [hport, port_roundtrip, hnew]

end Endpoint

/-! ### Bodies on the wire -/

section

variable {badLen : Error} {body : Bytes} {tx : TxId}

theorem decodeTx_eq_ok : decodeTx badLen body = .ok tx ↔ ∃ rest, body = tx.toList ++ rest := by
  rw [decodeTx, okOr_eq_ok, firstChunk_eq_some_iff]

theorem decodeTx_eq_ok_of_length (hlen : body.length = TX_ID_LEN) :
    decodeTx badLen body = .ok tx ↔ body = tx.toList := by
  rw [decodeTx, okOr_eq_ok, firstChunk_eq_some_of_length hlen]

theorem decodeTx_bind_eq_ok {β : Type} (badLen : Error) (body : Bytes)
    (f : TxId → Bytes → Except Error β) (r : β) :
    (decodeTx badLen body >>= fun tx => okOr badLen (cut TX_ID_LEN body) >>= fun x => f tx x.2)
      = .ok r ↔ ∃ tx rest, body = tx.toList ++ rest ∧ f tx rest = .ok r := by
  rw [bind_eq_ok]
  constructor
  · intro h
    obtain ⟨tx, htx, h⟩ := h
    obtain ⟨rest, hbody⟩ := decodeTx_eq_ok.mp htx
    rw [hbody, cut_append Vector.length_toList] at h
    exact ⟨tx, rest, hbody, h⟩
  · intro h
    obtain ⟨tx, rest, hbody, hf⟩ := h
    refine ⟨tx, decodeTx_eq_ok.mpr ⟨rest, hbody⟩, ?_⟩
    rw [hbody, cut_append Vector.length_toList]
    exact hf

theorem decodeObserved_eq_ok {observed : Endpoint} (hlen : body.length = TX_ID_LEN + ENDPOINT_LEN) :
    decodeObserved badLen body = .ok (tx, observed)
      ↔ observed.OnWire ∧ body = tx.toList ++ observed.encode := by
  refine (decodeTx_bind_eq_ok badLen body (fun tx rest => do
    let ep ← okOr badLen (firstChunk ENDPOINT_LEN rest)
    let observed ← Endpoint.decode ep
    return (tx, observed)) (tx, observed)).trans ?_
  constructor
  · intro h
    obtain ⟨tx', rest, rfl, h⟩ := h
    obtain ⟨ep, hep, h⟩ := bind_eq_ok.mp h
    obtain ⟨e, he, h⟩ := bind_eq_ok.mp h
    obtain ⟨rfl, rfl⟩ := Prod.mk.inj (ok.inj h)
    rw [length_append, Vector.length_toList, add_left_cancel_iff] at hlen
    rw [okOr_eq_ok, firstChunk_eq_some_of_length hlen] at hep
    obtain ⟨hwire, henc⟩ := Endpoint.decode_eq_ok.mp he
    exact ⟨hwire, by rw [hep, henc]⟩
  · intro h
    obtain ⟨hwire, hbody⟩ := h
    refine ⟨tx, observed.encode, hbody, ?_⟩
    rw [firstChunk_of_length observed.encode_length, okOr_some, ok_bind,
      Endpoint.decode_eq_ok.mpr ⟨hwire, toList_fit observed.encode_length⟩]
    rfl

theorem decodePadded_eq_ok {n : ℕ} :
    decodePadded badLen body = .ok (tx, n) ↔ body = tx.toList ++ replicate n 0 := by
  refine (decodeTx_bind_eq_ok badLen body (fun tx pad =>
    if pad.any fun b => b != 0 then .error .malformed else .ok (tx, pad.length)) (tx, n)).trans ?_
  constructor
  · intro h
    obtain ⟨tx', pad, hbody, h⟩ := h
    obtain ⟨hpad, h⟩ := guard_eq_ok.mp h
    obtain ⟨rfl, rfl⟩ := Prod.mk.inj (ok.inj h)
    rw [any_ne_zero, not_not] at hpad
    rw [hbody, ← hpad]
  · intro h
    refine ⟨tx, replicate n 0, h, guard_eq_ok.mpr ⟨?_, by rw [length_replicate]⟩⟩
    rw [any_ne_zero, not_not, length_replicate]

theorem decodeEndpoints_eq_ok {vs : List (Vector UInt8 ENDPOINT_LEN)} {cs : List Endpoint} :
    decodeEndpoints vs = .ok cs ↔ (∀ c ∈ cs, c.OnWire) ∧ vs.map Vector.toList = cs.map Endpoint.encode := by
  induction vs generalizing cs with
  | nil =>
    constructor
    · intro h
      rw [← ok.inj h]
      exact ⟨by simp, rfl⟩
    · intro h
      rw [map_eq_nil_iff.mp h.2.symm]
      rfl
  | cons v vs ih =>
    rw [decodeEndpoints, bind_eq_ok]
    constructor
    · intro h
      obtain ⟨c, hc, h⟩ := h
      obtain ⟨cs', hcs', h⟩ := bind_eq_ok.mp h
      obtain ⟨hwire, henc⟩ := Endpoint.decode_eq_ok.mp hc
      obtain ⟨hall, hmap⟩ := ih.mp hcs'
      rw [← ok.inj h, map_cons, map_cons, henc, hmap]
      exact ⟨forall_mem_cons.mpr ⟨hwire, hall⟩, rfl⟩
    · intro h
      cases cs with
      | nil => cases h.2
      | cons c cs =>
        obtain ⟨hwire, hall⟩ := forall_mem_cons.mp h.1
        obtain ⟨henc, hmap⟩ := cons.inj h.2
        exact ⟨c, Endpoint.decode_eq_ok.mpr ⟨hwire, henc⟩, bind_eq_ok.mpr ⟨cs, ih.mpr ⟨hall, hmap⟩, rfl⟩⟩

theorem endpoints_length (cs : List Endpoint) :
    ((cs.map Endpoint.encode).flatten).length = cs.length * ENDPOINT_LEN := by
  induction cs with
  | nil => rfl
  | cons c cs ih =>
    rw [map_cons, flatten_cons, length_append, ih, Endpoint.encode_length, length_cons, succ_mul, add_comm]

theorem decodeCandidates_eq_ok {cs : List Endpoint} : decodeCandidates badLen body = .ok cs
      ↔ (0 < cs.length ∧ cs.length ≤ MAX_CANDIDATES ∧ ∀ c ∈ cs, c.OnWire)
        ∧ body = UInt8.ofNat cs.length :: (cs.map Endpoint.encode).flatten := by
  have hwidth : 0 < ENDPOINT_LEN := by decide
  constructor
  · intro h
    cases body with
    | nil => cases h
    | cons count rest =>
      obtain ⟨hcount, h⟩ := guard_eq_ok.mp h
      obtain ⟨hrest, h⟩ := guard_eq_ok.mp h
      rw [not_not] at hrest
      rw [hrest, Nat.mul_div_cancel _ hwidth] at h
      obtain ⟨hwire, hmap⟩ := decodeEndpoints_eq_ok.mp h
      -- The chunks are the encodings, so there are as many candidates as were announced.
      have hflat : rest = (cs.map Endpoint.encode).flatten := by
        rw [← hmap, flatten_chunks hrest]
      have hlen : cs.length = count.toNat := by
        rw [hflat, endpoints_length] at hrest
        exact eq_of_mul_eq_mul_right hwidth hrest
      refine ⟨⟨by omega, by omega, hwire⟩, ?_⟩
      rw [hlen, UInt8.ofNat_toNat, hflat]
  · intro h
    obtain ⟨⟨hpos, hmax, hwire⟩, rfl⟩ := h
    have hcount : (UInt8.ofNat cs.length).toNat = cs.length :=
      UInt8.toNat_ofNat_of_lt' (lt_of_le_of_lt hmax (by decide))
    have hvs : (cs.map fun c => fit ENDPOINT_LEN c.encode).map Vector.toList = cs.map Endpoint.encode := by
      rw [map_map]
      exact map_congr_left fun c _ => toList_fit c.encode_length
    rw [decodeCandidates, hcount]
    refine guard_eq_ok.mpr ⟨by omega, guard_eq_ok.mpr ⟨not_not.mpr (endpoints_length cs), ?_⟩⟩
    rw [endpoints_length, Nat.mul_div_cancel _ hwidth, decodeEndpoints_eq_ok]
    refine ⟨hwire, ?_⟩
    have hchunks := chunks_flatten (cs.map fun c => fit ENDPOINT_LEN c.encode)
    rw [hvs, length_map] at hchunks
    rw [hchunks, hvs]

end

namespace Message

def WellFormed : Message → Prop
  | .ping _ => True
  | .pong _ observed => observed.OnWire
  | .callMeMaybe candidates =>
    0 < candidates.length ∧ candidates.length ≤ MAX_CANDIDATES ∧ ∀ c ∈ candidates, c.OnWire
  | .reflect _ => True
  | .reflection _ observed => observed.OnWire
  | .mtuProbe _ padding => MTU_PROBE_OVERHEAD + padding ≤ MTU_PROBE_DATAGRAM_MAX
  | .mtuProbeAck _ => True

def isReflect : Message → Bool
  | .reflect _ => true
  | .reflection _ _ => true
  | _ => false

theorem isReflect_header (m : Message) (tag : Vector UInt8 TAG_LEN) (epoch : UInt32) :
    Header.isReflect ⟨tag, epoch, m.msgType⟩ = m.isReflect := by
  cases m <;> rfl

theorem body_callMeMaybe {candidates : List Endpoint} (h : candidates.length ≤ MAX_CANDIDATES) :
    (Message.callMeMaybe candidates).body
      = UInt8.ofNat candidates.length :: (candidates.map Endpoint.encode).flatten := by
  rw [body, min_eq_left h, take_length]

theorem encoded_length_le {m : Message} (h : m.WellFormed) :
    HEADER + m.body.length + MAC_LEN ≤ MTU_PROBE_DATAGRAM_MAX := by
  have hshort {n : ℕ} (hn : n ≤ TX_ID_LEN + ENDPOINT_LEN) :
      HEADER + n + MAC_LEN ≤ MTU_PROBE_DATAGRAM_MAX := by
    have hmost : HEADER + (TX_ID_LEN + ENDPOINT_LEN) + MAC_LEN ≤ MTU_PROBE_DATAGRAM_MAX := by decide
    omega
  cases m with
  | callMeMaybe candidates =>
    obtain ⟨-, hmax, -⟩ := h
    rw [body_callMeMaybe hmax, length_cons, endpoints_length]
    simp only [HEADER, TAG_LEN, MAC_LEN, ENDPOINT_LEN, MAX_CANDIDATES, MTU_PROBE_DATAGRAM_MAX,
      MTU_CEILING, TRANSPORT_DATAGRAM_MAX, FRAGMENT_HEADER, TRANSPORT_PAYLOAD_MAX] at hmax ⊢
    omega
  | mtuProbe tx padding =>
    have hlen : (Message.mtuProbe tx padding).body.length = TX_ID_LEN + padding := by
      simp [body]
    have h' : HEADER + TX_ID_LEN + MAC_LEN + padding ≤ MTU_PROBE_DATAGRAM_MAX := h
    omega
  | ping tx => exact hshort (by simp [body])
  | mtuProbeAck tx => exact hshort (by simp [body])
  | pong tx observed => exact hshort (by simp [body])
  | reflection tx observed => exact hshort (by simp [body])
  | reflect tx => exact hshort (by simp [body, REFLECT_PAD_LEN])

end Message

section

variable {badLen : Error} {body : Bytes} {total : ℕ} {m : Message}
  (hlen : total = HEADER + body.length + MAC_LEN)

include hlen

theorem sizedBranch_eq_ok {α : Type} {read : Except Error α} {f : α → Message} {p : α → Prop}
    {most n : ℕ} (hmost : most = HEADER + n + MAC_LEN)
    (hread : ∀ x, body.length = n → (read = .ok x ↔ p x)) (hp : ∀ x, p x → body.length = n) :
    (if total ≠ most then .error badLen else read >>= fun x => pure (f x)) = .ok m ↔ ∃ x, m = f x ∧ p x := by
  have hbody : total = most ↔ body.length = n := by omega
  rw [guard_eq_ok, not_not, hbody, bind_eq_ok]
  constructor
  · intro h
    obtain ⟨hn, x, hx, hm⟩ := h
    exact ⟨x, (ok.inj hm).symm, (hread x hn).mp hx⟩
  · intro h
    obtain ⟨x, rfl, hx⟩ := h
    exact ⟨hp x hx, x, (hread x (hp x hx)).mpr hx, rfl⟩

theorem txBranch_eq_ok (f : TxId → Message) :
    (if total ≠ PING_LEN then .error badLen else decodeTx badLen body >>= fun tx => pure (f tx))
      = .ok m ↔ ∃ tx, m = f tx ∧ body = tx.toList := by
  refine sizedBranch_eq_ok hlen rfl (fun tx hn => decodeTx_eq_ok_of_length hn) fun tx hbody => ?_
  rw [hbody, Vector.length_toList]

theorem observedBranch_eq_ok (f : TxId → Endpoint → Message) :
    (if total ≠ PONG_LEN then .error badLen else decodeObserved badLen body >>= fun x =>
      pure (f x.1 x.2)) = .ok m
      ↔ ∃ x : TxId × Endpoint, m = f x.1 x.2 ∧ x.2.OnWire ∧ body = x.1.toList ++ x.2.encode := by
  refine sizedBranch_eq_ok hlen rfl (fun x hn => decodeObserved_eq_ok hn) fun x hx => ?_
  simp [hx.2]

theorem reflectBranch_eq_ok :
    (if total ≠ REFLECT_LEN then .error badLen else decodePadded badLen body >>= fun x =>
      pure (Message.reflect x.1)) = .ok m
      ↔ ∃ tx : TxId, m = .reflect tx ∧ body = tx.toList ++ replicate REFLECT_PAD_LEN 0 := by
  rw [guard_eq_ok, not_not, hlen, bind_eq_ok]
  constructor
  · intro h
    obtain ⟨htotal, ⟨tx, padding⟩, hdec, hm⟩ := h
    have hbody := decodePadded_eq_ok.mp hdec
    have hpad : padding = REFLECT_PAD_LEN := by
      rw [hbody, length_append, Vector.length_toList, length_replicate] at htotal
      rw [REFLECT_LEN] at htotal
      omega
    exact ⟨tx, (ok.inj hm).symm, by rw [hbody, hpad]⟩
  · intro h
    obtain ⟨tx, rfl, rfl⟩ := h
    refine ⟨?_, (tx, REFLECT_PAD_LEN), decodePadded_eq_ok.mpr rfl, rfl⟩
    rw [length_append, Vector.length_toList, length_replicate]
    rfl

theorem mtuProbeBranch_eq_ok (hmax : total ≤ MTU_PROBE_DATAGRAM_MAX) :
    (if total < MTU_PROBE_OVERHEAD then .error badLen else decodePadded badLen body >>= fun x =>
      pure (Message.mtuProbe x.1 x.2)) = .ok m
      ↔ ∃ (tx : TxId) (padding : ℕ), m = .mtuProbe tx padding
        ∧ MTU_PROBE_OVERHEAD + padding ≤ MTU_PROBE_DATAGRAM_MAX
        ∧ body = tx.toList ++ replicate padding 0 := by
  rw [guard_eq_ok, bind_eq_ok]
  constructor
  · intro h
    obtain ⟨-, ⟨tx, padding⟩, hdec, hm⟩ := h
    have hbody := decodePadded_eq_ok.mp hdec
    refine ⟨tx, padding, (ok.inj hm).symm, ?_, hbody⟩
    rw [hbody, length_append, Vector.length_toList, length_replicate] at hlen
    rw [MTU_PROBE_OVERHEAD]
    omega
  · intro h
    obtain ⟨tx, padding, rfl, -, rfl⟩ := h
    refine ⟨?_, (tx, padding), decodePadded_eq_ok.mpr rfl, rfl⟩
    rw [hlen, length_append, Vector.length_toList, MTU_PROBE_OVERHEAD]
    omega

omit hlen in
theorem candidatesBranch_eq_ok :
    (decodeCandidates badLen body >>= fun cs => pure (Message.callMeMaybe cs)) = .ok m
      ↔ ∃ cs, m = .callMeMaybe cs ∧ (Message.callMeMaybe cs).WellFormed
        ∧ body = (Message.callMeMaybe cs).body := by
  rw [bind_eq_ok]
  constructor
  · intro h
    obtain ⟨cs, hdec, hm⟩ := h
    obtain ⟨hcs, hbody⟩ := decodeCandidates_eq_ok.mp hdec
    exact ⟨cs, (ok.inj hm).symm, hcs, by rw [hbody, Message.body_callMeMaybe hcs.2.1]⟩
  · intro h
    obtain ⟨cs, rfl, hcs, rfl⟩ := h
    refine ⟨cs, decodeCandidates_eq_ok.mpr ⟨hcs, ?_⟩, rfl⟩
    exact Message.body_callMeMaybe hcs.2.1

theorem decodeBody_eq_ok {h : Header} (hmax : total ≤ MTU_PROBE_DATAGRAM_MAX) :
    decodeBody h body total = .ok m
      ↔ (h.isReflect = true → h.epoch = 0) ∧ m.msgType = h.msgType ∧ m.WellFormed ∧ body = m.body := by
  have hepoch : ¬ (h.isReflect = true ∧ h.epoch ≠ 0) ↔ (h.isReflect = true → h.epoch = 0) := by
    rw [not_and, not_ne_iff]
  rw [decodeBody, guard_eq_ok, hepoch]
  refine and_congr_right fun _ => ?_
  constructor
  · intro hrun
    split at hrun
    · rename_i htype
      obtain ⟨tx, rfl, hbody⟩ := (txBranch_eq_ok hlen _).mp hrun
      exact ⟨htype.symm, trivial, hbody⟩
    split at hrun
    · rename_i htype
      obtain ⟨x, rfl, hwire, hbody⟩ := (observedBranch_eq_ok hlen _).mp hrun
      exact ⟨htype.symm, hwire, hbody⟩
    split at hrun
    · rename_i htype
      obtain ⟨cs, rfl, hcs, hbody⟩ := candidatesBranch_eq_ok.mp hrun
      exact ⟨htype.symm, hcs, hbody⟩
    split at hrun
    · rename_i htype
      obtain ⟨tx, rfl, hbody⟩ := (reflectBranch_eq_ok hlen).mp hrun
      exact ⟨htype.symm, trivial, hbody⟩
    split at hrun
    · rename_i htype
      obtain ⟨tx, padding, rfl, hfits, hbody⟩ := (mtuProbeBranch_eq_ok hlen hmax).mp hrun
      exact ⟨htype.symm, hfits, hbody⟩
    split at hrun
    · rename_i htype
      obtain ⟨tx, rfl, hbody⟩ := (txBranch_eq_ok hlen _).mp hrun
      exact ⟨htype.symm, trivial, hbody⟩
    split at hrun
    · rename_i htype
      obtain ⟨x, rfl, hwire, hbody⟩ := (observedBranch_eq_ok hlen _).mp hrun
      exact ⟨htype.symm, hwire, hbody⟩
    · cases hrun
  · intro hm
    obtain ⟨htype, hwf, hbody⟩ := hm
    rw [← htype]
    cases m with
    | ping tx => exact (txBranch_eq_ok hlen _).mpr ⟨tx, rfl, hbody⟩
    | pong tx observed => exact (observedBranch_eq_ok hlen _).mpr ⟨(tx, observed), rfl, hwf, hbody⟩
    | callMeMaybe cs => exact candidatesBranch_eq_ok.mpr ⟨cs, rfl, hwf, hbody⟩
    | reflect tx => exact (reflectBranch_eq_ok hlen).mpr ⟨tx, rfl, hbody⟩
    | reflection tx observed =>
      exact (observedBranch_eq_ok hlen _).mpr ⟨(tx, observed), rfl, hwf, hbody⟩
    | mtuProbe tx padding =>
      exact (mtuProbeBranch_eq_ok hlen hmax).mpr ⟨tx, padding, rfl, hwf, hbody⟩
    | mtuProbeAck tx => exact (txBranch_eq_ok hlen _).mpr ⟨tx, rfl, hbody⟩

end

/-! ### Datagrams on the wire -/

theorem Header.encode_length (h : Header) : h.encode.length = HEADER := by
  rw [encode, length_append, length_append, length_append, beBytes_length, Vector.length_toList]
  rfl

theorem peek_parts {magic tag epoch rest : Bytes} {version msgType : UInt8}
    (hmagic : magic.length = 4) (htag : tag.length = TAG_LEN) (hepoch : epoch.length = 4)
    (hrest : MAC_LEN ≤ rest.length) (hmax : HEADER + rest.length ≤ MTU_PROBE_DATAGRAM_MAX) :
    peek (magic ++ [version, msgType] ++ tag ++ epoch ++ rest) = if magic ≠ MAGIC then .error .notAven else
        if version ≠ VERSION then .error (.badVersion version) else
        .ok ⟨fit TAG_LEN tag, UInt32.ofNat (beValue epoch), msgType⟩ := by
  have hlen : (magic ++ [version, msgType] ++ tag ++ epoch ++ rest).length = HEADER + rest.length := by
    simp only [length_append, hmagic, htag, hepoch]
    rfl
  have hfirst : firstChunk 4 (magic ++ [version, msgType] ++ tag ++ epoch ++ rest) = some (fit 4 magic) := by
    have h := firstChunk_append (fit 4 magic) ([version, msgType] ++ tag ++ epoch ++ rest)
    rw [toList_fit hmagic] at h
    rw [← h]
    simp only [append_assoc]
  have hversion : (magic ++ [version, msgType] ++ tag ++ epoch ++ rest)[4]? = some version := by
    simp [append_assoc, hmagic]
  have htype : (magic ++ [version, msgType] ++ tag ++ epoch ++ rest)[5]? = some msgType := by
    simp [append_assoc, getElem?_append, hmagic]
  have hslice : slice (magic ++ [version, msgType] ++ tag ++ epoch ++ rest) 6 TAG_LEN = some tag := by
    rw [append_assoc _ epoch rest]
    exact slice_append (by rw [length_append, hmagic]; rfl) htag _
  have hslice' : slice (magic ++ [version, msgType] ++ tag ++ epoch ++ rest) (6 + TAG_LEN)
      (HEADER - (6 + TAG_LEN)) = some epoch := by
    refine slice_append ?_ hepoch rest
    rw [length_append, length_append, hmagic, htag]
    rfl
  rw [peek, hlen, if_neg (not_lt.mpr hmax), if_neg (by omega), hfirst, hversion, htype, hslice,
    hslice']
  simp only [okOr_some, ok_bind, toList_fit hmagic, firstChunk_of_length htag,
    firstChunk_of_length hepoch, toList_fit hepoch]
  rfl

theorem exists_header_parts {d : Bytes} (h : HEADER + MAC_LEN ≤ d.length) :
    ∃ (magic : Bytes) (version msgType : UInt8) (tag epoch rest : Bytes), magic.length = 4
      ∧ tag.length = TAG_LEN ∧ epoch.length = 4 ∧ MAC_LEN ≤ rest.length
      ∧ d = magic ++ [version, msgType] ++ tag ++ epoch ++ rest := by
  have hlong : 4 + (2 + (TAG_LEN + (4 + MAC_LEN))) ≤ d.length := h
  obtain ⟨magic, rest₁, rfl, hmagic, hrest₁⟩ := exists_cut hlong
  obtain ⟨two, rest₂, rfl, htwo, hrest₂⟩ := exists_cut hrest₁
  obtain ⟨tag, rest₃, rfl, htag, hrest₃⟩ := exists_cut hrest₂
  obtain ⟨epoch, rest, rfl, hepoch, hrest⟩ := exists_cut hrest₃
  obtain ⟨version, msgType, rfl⟩ := length_eq_two.mp htwo
  refine ⟨magic, version, msgType, tag, epoch, rest, hmagic, htag, hepoch, hrest, ?_⟩
  simp only [append_assoc]

theorem peek_eq_ok {d : Bytes} {h : Header} : peek d = .ok h ↔ d.length ≤ MTU_PROBE_DATAGRAM_MAX
      ∧ ∃ rest, MAC_LEN ≤ rest.length ∧ d = h.encode ++ rest := by
  constructor
  · intro hrun
    obtain ⟨hmax, hrun'⟩ := guard_eq_ok.mp hrun
    obtain ⟨hmin, -⟩ := guard_eq_ok.mp hrun'
    obtain ⟨magic, version, msgType, tag, epoch, rest, hmagic, htag, hepoch, hrest, rfl⟩ :=
      exists_header_parts (not_lt.mp hmin)
    have hlen : (magic ++ [version, msgType] ++ tag ++ epoch ++ rest).length = HEADER + rest.length := by
      simp only [length_append, hmagic, htag, hepoch]
      rfl
    rw [hlen] at hmax
    rw [peek_parts hmagic htag hepoch hrest (not_lt.mp hmax), guard_eq_ok, guard_eq_ok,
      not_not, not_not] at hrun
    obtain ⟨rfl, rfl, hh⟩ := hrun
    refine ⟨by rw [hlen]; exact not_lt.mp hmax, rest, hrest, ?_⟩
    rw [← ok.inj hh, encode, toList_fit htag, beBytes_uint32 hepoch]
  · intro hd
    obtain ⟨hmax, rest, hrest, rfl⟩ := hd
    rw [length_append, encode_length] at hmax
    rw [encode, peek_parts rfl Vector.length_toList (beBytes_length 4 _) hrest hmax,
      if_neg (not_not.mpr rfl), if_neg (not_not.mpr rfl), uint32_beBytes]
    rw [← append_nil h.tag.toList, fit_append]

section

variable {P : Primitives} {d : Bytes} {key : DiscoKey} {m : Message}

theorem openMessage_of_peek {h : Header} {body mac : Bytes} (hmac : mac.length = MAC_LEN)
    (hpeek : peek (h.encode ++ body ++ mac) = .ok h) : openMessage P (h.encode ++ body ++ mac) key
      = if ¬ DiscoKey.verify P key (h.encode ++ body) mac then .error .badMac else
        decodeBody h body (h.encode ++ body ++ mac).length := by
  have hlen : (h.encode ++ body ++ mac).length = (h.encode ++ body).length + MAC_LEN := by
    rw [length_append, hmac]
  rw [openMessage, hpeek, ok_bind, if_pos (by omega), okOr_some, ok_bind, hlen, Nat.add_sub_cancel,
    cut_append rfl, okOr_some, ok_bind]
  show (if ¬ DiscoKey.verify P key (h.encode ++ body) mac then _ else
    okOr Error.notAven (cut HEADER (h.encode ++ body)) >>= fun x => _) = _
  rw [cut_append h.encode_length]
  rfl

theorem encode_eq (m : Message) (key : DiscoKey) (tag : Vector UInt8 TAG_LEN) (epoch : UInt32) :
    m.encode P key tag epoch = encode ⟨tag, epoch, m.msgType⟩ ++ m.body
      ++ (DiscoKey.mac P key (encode ⟨tag, epoch, m.msgType⟩ ++ m.body)).toList := rfl

theorem peek_encode (hwf : m.WellFormed) (tag : Vector UInt8 TAG_LEN) (epoch : UInt32) :
    peek (m.encode P key tag epoch) = .ok ⟨tag, epoch, m.msgType⟩ := by
  rw [encode_eq, append_assoc, peek_eq_ok]
  refine ⟨?_, _, ?_, rfl⟩
  · rw [length_append, length_append, encode_length, Vector.length_toList, ← add_assoc]
    exact Message.encoded_length_le hwf
  · rw [length_append, Vector.length_toList]
    exact le_add_left _ _

/-- **Datagrams.**  A datagram is accepted as a message exactly if it is an encoding of it under the
key, with no epoch named for the reflect types. -/
theorem openMessage_eq_ok :
    openMessage P d key = .ok m ↔ ∃ tag epoch, m.WellFormed ∧ (m.isReflect = true → epoch = 0)
      ∧ d = m.encode P key tag epoch := by
  constructor
  · intro hrun
    obtain ⟨h, hpeek, -⟩ := bind_eq_ok.mp hrun
    obtain ⟨hmax, rest, hrest, rfl⟩ := peek_eq_ok.mp hpeek
    -- What follows the header is the body and the MAC.
    obtain ⟨body, mac, rfl, hbody, hmac⟩ : ∃ body mac, rest = body ++ mac
        ∧ body.length = rest.length - MAC_LEN ∧ mac.length = MAC_LEN := by
      refine ⟨rest.take (rest.length - MAC_LEN), rest.drop (rest.length - MAC_LEN),
        (take_append_drop _ _).symm, length_take_of_le (sub_le _ _), ?_⟩
      rw [length_drop]
      omega
    rw [← append_assoc] at hrun hpeek hmax
    rw [openMessage_of_peek hmac hpeek, guard_eq_ok, not_not, DiscoKey.verify_eq_true] at hrun
    obtain ⟨rfl, hdec⟩ := hrun
    have hlen : (h.encode ++ body ++ (DiscoKey.mac P key (h.encode ++ body)).toList).length
        = HEADER + body.length + MAC_LEN := by
      rw [length_append, length_append, h.encode_length, hmac]
    obtain ⟨hepoch, htype, hwf, rfl⟩ := (decodeBody_eq_ok hlen hmax).mp hdec
    have hheader : h = ⟨h.tag, h.epoch, m.msgType⟩ := by rw [htype]
    refine ⟨h.tag, h.epoch, hwf, ?_, ?_⟩
    · rw [← m.isReflect_header h.tag h.epoch, ← hheader]
      exact hepoch
    · rw [Message.encode, ← hheader, append_assoc]
  · intro hd
    obtain ⟨tag, epoch, hwf, hepoch, rfl⟩ := hd
    have hpeek : peek (m.encode P key tag epoch) = .ok ⟨tag, epoch, m.msgType⟩ :=
      peek_encode hwf tag epoch
    rw [encode_eq] at hpeek ⊢
    have hlen : (encode ⟨tag, epoch, m.msgType⟩ ++ m.body
        ++ (DiscoKey.mac P key (encode ⟨tag, epoch, m.msgType⟩ ++ m.body)).toList).length
        = HEADER + m.body.length + MAC_LEN := by
      rw [length_append, length_append, encode_length, Vector.length_toList]
    rw [openMessage_of_peek Vector.length_toList hpeek, guard_eq_ok, not_not, DiscoKey.verify_eq_true]
    refine ⟨rfl, (decodeBody_eq_ok hlen ?_).mpr ⟨?_, rfl, hwf, rfl⟩⟩
    · rw [hlen]
      exact Message.encoded_length_le hwf
    · rw [m.isReflect_header tag epoch]
      exact hepoch

theorem encode_of_open (h : openMessage P d key = .ok m) :
    ∃ header, peek d = .ok header ∧ header.msgType = m.msgType
      ∧ m.encode P key header.tag header.epoch = d := by
  obtain ⟨tag, epoch, hwf, -, rfl⟩ := openMessage_eq_ok.mp h
  exact ⟨_, peek_encode hwf tag epoch, rfl, rfl⟩

end

/-- **The codec is canonical**: messages are read back, and what is accepted is the encoding of what
it is decoded to. -/
theorem codec_canonical (P : Primitives) (key : DiscoKey) :
    (∀ (m : Message) tag epoch, m.WellFormed → (m.isReflect = true → epoch = 0) →
      peek (m.encode P key tag epoch) = .ok ⟨tag, epoch, m.msgType⟩
        ∧ openMessage P (m.encode P key tag epoch) key = .ok m)
      ∧ (∀ d m, openMessage P d key = .ok m → ∃ header, peek d = .ok header
        ∧ header.msgType = m.msgType ∧ m.encode P key header.tag header.epoch = d)
      ∧ ∀ d d' m header, openMessage P d key = .ok m → openMessage P d' key = .ok m →
        peek d = .ok header → peek d' = .ok header → d = d' := by
  refine ⟨?_, fun d m => encode_of_open, ?_⟩
  · intro m tag epoch hwf hepoch
    exact ⟨peek_encode hwf tag epoch, openMessage_eq_ok.mpr ⟨tag, epoch, hwf, hepoch, rfl⟩⟩
  · intro d d' m header hd hd' hpeek hpeek'
    obtain ⟨h, hh, -, henc⟩ := encode_of_open hd
    obtain ⟨h', hh', -, henc'⟩ := encode_of_open hd'
    rw [hpeek] at hh
    rw [hpeek'] at hh'
    rw [← henc, ← henc', ← ok.inj hh, ← ok.inj hh']

theorem reflect_read_back : openMessage reference ((Message.reflect (fit TX_ID_LEN [])).encode reference
      (fit KEY_LEN []) (fit TAG_LEN []) 0) (fit KEY_LEN []) = .ok (.reflect (fit TX_ID_LEN [])) :=
  ((codec_canonical reference _).1 (.reflect _) _ 0 trivial fun _ => rfl).2

/-- A `Reflect` that names an epoch is authentic and still refused. -/
theorem reflect_with_epoch_refused : (Message.reflect (fit TX_ID_LEN [])).WellFormed
      ∧ openMessage reference ((Message.reflect (fit TX_ID_LEN [])).encode reference
        (fit KEY_LEN []) (fit TAG_LEN []) 1) (fit KEY_LEN []) = .error .malformed := by
  refine ⟨trivial, ?_⟩
  decide +kernel

end Karst.Disco
