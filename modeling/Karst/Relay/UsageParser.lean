import Karst.Foundations.Readers
import Karst.Relay.UsageBatches

/-!
# The server's usage batches

`management/internals/karst/relayusage/batch.go`: `Parse` checks the envelope and the payload of a
usage batch, in Go and by rules of its own.
-/

namespace Karst.Relay.Go

open Except Nat Window
open List hiding Vector

def headerSize : ℕ := 68
def SignatureSize : ℕ := 4627
def MaxPayloadSize : ℕ := 8 * 1024 * 1024
def maxEncodedSize : ℕ := headerSize + SignatureSize + MaxPayloadSize
def maxMappings : ℕ := 4096
def minuteMicros : ℕ := 60000000
def FormatVersion : ℕ := 1
def knownGapMask : UInt8 := 0x1F

def invalid (what : String) : String := "relay usage: invalid batch: " ++ what

structure MappingTotal where
  deployment : Bytes
  version : Bytes
  aquifer : Bytes
  bytes : ℕ
  deriving DecidableEq

structure Window where
  startMicros : ℕ
  endMicros : ℕ
  mappings : List MappingTotal
  gaps : UInt8
  deriving DecidableEq

structure Batch where
  epoch : Vector UInt8 16
  sequence : ℕ
  digest : Vector UInt8 32
  signature : Bytes
  payload : Bytes
  window : Window

/-! ### The parser -/

/-- UTF-8 without white space around it and without control characters. -/
def validText (value : Bytes) : Bool :=
  validUtf8 value && trimSpace value == value && !hasControl value

def field (limit : ℕ) : Reader String Bytes := do
  let size ← Reader.take (invalid "truncated mapping length") 2
  if beValue size = 0 ∨ limit < beValue size then throw (invalid "mapping field bounds")
  let value ← Reader.take (invalid "mapping field bounds") (beValue size)
  if validText value = false then throw (invalid "invalid mapping text")
  return value

def mapping : Reader String MappingTotal := do
  let deployment ← field 128
  let version ← field 64
  let aquifer ← field 1024
  let bytes ← Reader.take (invalid "truncated mapping total") 8
  return ⟨deployment, version, aquifer, beValue bytes⟩

/-- The fields with zero bytes between them; strings are compared byte by byte. -/
def MappingTotal.key (m : MappingTotal) : List ℕ :=
  (m.deployment ++ 0 :: (m.version ++ 0 :: m.aquifer)).map UInt8.toNat

def mappings (i : ℕ) (previous : List ℕ) : ℕ → Reader String (List MappingTotal)
  | 0 => return []
  | n + 1 => do
    let m ← mapping
    if 0 < i ∧ m.key ≤ previous then throw (invalid "mapping order or duplicate")
    let ms ← mappings (i + 1) m.key n
    return m :: ms

def coverage : Bytes → Except String UInt8
  | [gaps] =>
    if gaps &&& ~~~knownGapMask ≠ 0 then .error (invalid "unknown coverage gap") else .ok gaps
  | _ => .error (invalid "payload trailing bytes")

def parsePayload (payload : Bytes) : Except String Window :=
  if payload.length < 4 + 2 + 8 + 8 + 2 + 1 ∨ between 0 4 payload ≠ ascii "KRUM"
      ∨ beValue (between 4 6 payload) ≠ 1 then .error (invalid "payload magic or version")
  else
    let startMicros := beValue (between 6 14 payload)
    let endMicros := beValue (between 14 22 payload)
    if startMicros % minuteMicros ≠ 0 ∨ U64_MAX - minuteMicros < startMicros
        ∨ endMicros ≠ startMicros + minuteMicros then .error (invalid "payload window bounds")
    else
      let count := beValue (between 22 24 payload)
      if maxMappings < count then .error (invalid "mapping count")
      else do
        let read ← mappings 0 [] count (payload.drop 24)
        let gaps ← coverage read.2
        return ⟨startMicros, endMicros, read.1, gaps⟩

def parse (sha256 : Bytes → Vector UInt8 32) (encoded : Bytes) : Except String Batch :=
  if encoded.length < headerSize + SignatureSize + 1 ∨ maxEncodedSize < encoded.length then
    .error (invalid "encoded size")
  else if between 0 4 encoded ≠ ascii "KRUS" ∨ beValue (between 4 6 encoded) ≠ FormatVersion then
    .error (invalid "magic or version")
  else
    let epoch := fit 16 (between 6 22 encoded)
    let sequence := beValue (between 22 30 encoded)
    let payloadLen := beValue (between 30 34 encoded)
    let digest := fit 32 (between 34 66 encoded)
    let signatureLen := beValue (between 66 68 encoded)
    if payloadLen = 0 ∨ MaxPayloadSize < payloadLen ∨ signatureLen ≠ SignatureSize then
      .error (invalid "field bounds")
    else if headerSize + signatureLen + payloadLen ≠ encoded.length then
      .error (invalid "length mismatch")
    else
      let signatureEnd := headerSize + signatureLen
      let signature := between headerSize signatureEnd encoded
      let payload := encoded.drop signatureEnd
      if sha256 payload ≠ digest then .error (invalid "payload digest")
      else do
        let window ← parsePayload payload
        return ⟨epoch, sequence, digest, signature, payload, window⟩

/-! ### Mappings -/

namespace MappingTotal

def encode (m : MappingTotal) : Bytes :=
  Window.fieldBytes m.deployment ++ Window.fieldBytes m.version ++ Window.fieldBytes m.aquifer
    ++ beBytes 8 m.bytes

structure Fits (m : MappingTotal) : Prop where
  deployment : (0 < m.deployment.length ∧ m.deployment.length ≤ 128) ∧ validText m.deployment = true
  version : (0 < m.version.length ∧ m.version.length ≤ 64) ∧ validText m.version = true
  aquifer : (0 < m.aquifer.length ∧ m.aquifer.length ≤ 1024) ∧ validText m.aquifer = true
  bytes : m.bytes ≤ U64_MAX

end MappingTotal

theorem inverts_field {limit : ℕ} (hlimit : limit < 65536) : Reader.Inverts (field limit) fieldBytes
      fun v => (0 < v.length ∧ v.length ≤ limit) ∧ validText v = true := by
  intro b v rest
  simp only [field, (Reader.inverts_take _ _).bind_eq_ok, Reader.guard_eq_ok, Reader.pure_apply,
    ok.injEq, Prod.mk.injEq]
  constructor
  · intro h
    obtain ⟨size, _, ⟨hsize, rfl⟩, hbounds, value, _, ⟨hvalue, rfl⟩, htext, rfl, rfl⟩ := h
    refine ⟨⟨by omega, by simpa using htext⟩, ?_⟩
    rw [fieldBytes, hvalue, beBytes_beValue hsize, append_assoc]
  · intro h
    obtain ⟨⟨hlen, htext⟩, rfl⟩ := h
    have hvalue : beValue (beBytes 2 v.length) = v.length := beValue_beBytes (by omega)
    refine ⟨beBytes 2 v.length, v ++ rest, ⟨beBytes_length 2 _, ?_⟩, ?_⟩
    · rw [fieldBytes, append_assoc]
    · rw [hvalue]
      exact ⟨by omega, v, rest, ⟨rfl, rfl⟩, by rw [htext]; decide, rfl, rfl⟩

theorem inverts_mapping : Reader.Inverts mapping MappingTotal.encode MappingTotal.Fits := by
  intro b m rest
  simp only [mapping, (inverts_field (show 128 < 65536 by decide)).bind_eq_ok,
    (inverts_field (show 64 < 65536 by decide)).bind_eq_ok,
    (inverts_field (show 1024 < 65536 by decide)).bind_eq_ok, (Reader.inverts_take _ _).bind_eq_ok,
    Reader.pure_apply, ok.injEq, Prod.mk.injEq]
  constructor
  · intro h
    obtain ⟨deployment, _, ⟨hdeployment, rfl⟩, version, _, ⟨hversion, rfl⟩, aquifer, _,
      ⟨haquifer, rfl⟩, bytes, _, ⟨hbytes, rfl⟩, rfl, rfl⟩ := h
    refine ⟨⟨hdeployment, hversion, haquifer, Nat.le_pred_of_lt (beValue_lt hbytes)⟩, ?_⟩
    simp only [MappingTotal.encode, append_assoc, beBytes_beValue hbytes]
  · intro h
    obtain ⟨hfits, rfl⟩ := h
    have hbytes : m.bytes < 256 ^ 8 := lt_of_le_of_lt hfits.bytes (by decide)
    refine ⟨m.deployment, _, ⟨hfits.deployment, ?_⟩, m.version, _, ⟨hfits.version, rfl⟩, m.aquifer, _,
      ⟨hfits.aquifer, rfl⟩, beBytes 8 m.bytes, rest, ⟨beBytes_length 8 _, rfl⟩, ?_, rfl⟩
    · simp only [MappingTotal.encode, append_assoc]
    · rw [beValue_beBytes hbytes]

def Rising (i : ℕ) (previous : List ℕ) (ms : List MappingTotal) : Prop :=
  ms.Pairwise (fun m m' => m.key < m'.key) ∧ (0 < i → ∀ m ∈ ms, previous < m.key)

theorem rising_cons {i : ℕ} {previous : List ℕ} {m : MappingTotal} {ms : List MappingTotal} :
    Rising i previous (m :: ms) ↔ ¬ (0 < i ∧ m.key ≤ previous) ∧ Rising (i + 1) m.key ms := by
  simp only [Rising, pairwise_cons, forall_mem_cons, not_and, not_le, succ_pos, forall_const]
  constructor
  · intro h
    exact ⟨fun hi => (h.2 hi).1, h.1.2, h.1.1⟩
  · intro h
    refine ⟨⟨h.2.2, h.2.1⟩, fun hi => ⟨h.1 hi, ?_⟩⟩
    exact fun m' hm' => (h.1 hi).trans (h.2.2 m' hm')

theorem inverts_mappings (n i : ℕ) (previous : List ℕ) :
    Reader.Inverts (mappings i previous n) (fun ms => (ms.map MappingTotal.encode).flatten)
      fun ms => ms.length = n ∧ (∀ m ∈ ms, m.Fits) ∧ Rising i previous ms := by
  induction n generalizing i previous with
  | zero =>
    refine (Reader.inverts_pure []).congr ?_ ?_
    · intro ms
      constructor
      · intro hms
        exact length_eq_zero_iff.mp hms.1
      · intro hms
        rw [hms]
        simp [Rising]
    · intro ms hms
      rw [length_eq_zero_iff.mp hms.1]
      rfl
  | succ n ih =>
    intro b ms rest
    simp only [mappings, inverts_mapping.bind_eq_ok, Reader.guard_eq_ok, (ih _ _).bind_eq_ok,
      Reader.pure_apply, ok.injEq, Prod.mk.injEq]
    constructor
    · intro h
      obtain ⟨m, _, ⟨hm, rfl⟩, horder, ms, _, ⟨⟨hlen, hfits, hrising⟩, rfl⟩, rfl, rfl⟩ := h
      refine ⟨⟨by rw [length_cons, hlen], forall_mem_cons.mpr ⟨hm, hfits⟩, ?_⟩, ?_⟩
      · exact rising_cons.mpr ⟨horder, hrising⟩
      · rw [map_cons, flatten_cons, append_assoc]
    · intro h
      obtain ⟨⟨hlen, hfits, hrising⟩, rfl⟩ := h
      cases ms with
      | nil => cases hlen
      | cons m ms =>
        obtain ⟨hm, hfits⟩ := forall_mem_cons.mp hfits
        obtain ⟨horder, hrising⟩ := rising_cons.mp hrising
        refine ⟨m, _, ⟨hm, ?_⟩, horder, ms, rest, ⟨⟨succ.inj hlen, hfits, hrising⟩, rfl⟩, rfl, rfl⟩
        rw [map_cons, flatten_cons, append_assoc]

/-! ### Payloads -/

namespace Window

def encode (w : Window) : Bytes :=
  ascii "KRUM" ++ beBytes 2 1 ++ beBytes 8 w.startMicros ++ beBytes 8 w.endMicros
    ++ beBytes 2 w.mappings.length ++ (w.mappings.map MappingTotal.encode).flatten ++ [w.gaps]

structure Fits (w : Window) : Prop where
  aligned : w.startMicros % minuteMicros = 0
  start_le : w.startMicros ≤ U64_MAX - minuteMicros
  end_eq : w.endMicros = w.startMicros + minuteMicros
  count : w.mappings.length ≤ maxMappings
  mappings : ∀ m ∈ w.mappings, m.Fits
  rising : w.mappings.Pairwise fun m m' => m.key < m'.key
  gaps : w.gaps &&& ~~~knownGapMask = 0

end Window

theorem rising_zero {ms : List MappingTotal} : Rising 0 [] ms ↔ ms.Pairwise fun m m' => m.key < m'.key :=
  ⟨And.left, fun h => ⟨h, fun hi => absurd hi (lt_irrefl 0)⟩⟩

theorem payload_split {b : Bytes} :
    b = between 0 4 b ++ between 4 6 b ++ between 6 14 b ++ between 14 22 b ++ between 22 24 b
      ++ b.drop 24 := by
  simp only [between_append_between, between_append_drop, drop_zero, Nat.reduceLeDiff]

theorem payload_fields {magic version start stop count : Bytes} (hmagic : magic.length = 4)
    (hversion : version.length = 2) (hstart : start.length = 8) (hstop : stop.length = 8)
    (hcount : count.length = 2) (rest : Bytes) :
    let b := magic ++ version ++ start ++ stop ++ count ++ rest
    between 0 4 b = magic ∧ between 4 6 b = version ∧ between 6 14 b = start
      ∧ between 14 22 b = stop ∧ between 22 24 b = count ∧ b.drop 24 = rest := by
  have hdrop : (magic ++ version ++ start ++ stop ++ count).length = 24 := by
    simp only [length_append]
    omega
  refine ⟨?_, ?_, ?_, ?_, ?_, drop_left' hdrop⟩
  all_goals
    simp only [*, append_assoc, between_left, between_right hmagic, between_right hversion,
      between_right hstart, between_right hstop, reduceLeDiff, reduceSub]

theorem coverage_eq_ok {rest : Bytes} {gaps : UInt8} :
    coverage rest = .ok gaps ↔ gaps &&& ~~~knownGapMask = 0 ∧ rest = [gaps] := by
  unfold coverage
  split
  · rw [guard_eq_ok, not_not, ok.injEq, cons.injEq]
    constructor
    · intro h
      rw [← h.2]
      exact ⟨h.1, rfl, rfl⟩
    · intro h
      rw [h.2.1]
      exact ⟨h.1, rfl⟩
  · rename_i hother
    exact iff_of_false (fun h => by cases h) fun h => hother gaps h.2

/-- **One encoding of each window**: a payload is accepted exactly if it is the layout of a window
within the limits. -/
theorem parsePayload_eq_ok {b : Bytes} {w : Window} : parsePayload b = .ok w ↔ w.Fits ∧ b = w.encode := by
  simp only [parsePayload, guard_eq_ok, bind_eq_ok, Prod.exists, inverts_mappings _ _ _ _ _ _,
    coverage_eq_ok, not_or, not_not, not_lt, rising_zero]
  constructor
  · intro h
    obtain ⟨⟨hlen, hmagic, hversion⟩, ⟨haligned, hstart, hend⟩, hcount, ms, rest,
      ⟨⟨hms, hfits, hrising⟩, hrest⟩, gaps, ⟨hgaps, rfl⟩, hw⟩ := h
    obtain rfl := ok.inj hw
    refine ⟨⟨haligned, hstart, hend, hms.trans_le hcount, hfits, hrising, hgaps⟩, ?_⟩
    have hlong : 24 ≤ b.length := (by decide : 24 ≤ 25).trans hlen
    have hone : between 4 6 b = beBytes 2 1 := by
      rw [← hversion, beBytes_between 4 6 2 rfl (hlong.trans' (by decide))]
    conv_lhs => rw [payload_split (b := b), hmagic, hone, hrest]
    simp only [Window.encode, hms, append_assoc]
    rw [beBytes_between 6 14 8 rfl (hlong.trans' (by decide)),
      beBytes_between 14 22 8 rfl (hlong.trans' (by decide)), beBytes_between 22 24 2 rfl hlong]
  · intro h
    obtain ⟨hfits, rfl⟩ := h
    have hmagic : (ascii "KRUM").length = 4 := by decide
    have hencode : w.encode = ascii "KRUM" ++ beBytes 2 1 ++ beBytes 8 w.startMicros
        ++ beBytes 8 w.endMicros ++ beBytes 2 w.mappings.length
        ++ ((w.mappings.map MappingTotal.encode).flatten ++ [w.gaps]) := by
      rw [Window.encode, append_assoc]
    obtain ⟨h₁, h₂, h₃, h₄, h₅, h₆⟩ := payload_fields hmagic (beBytes_length 2 1)
      (beBytes_length 8 w.startMicros) (beBytes_length 8 w.endMicros) (beBytes_length 2 w.mappings.length)
      ((w.mappings.map MappingTotal.encode).flatten ++ [w.gaps])
    rw [← hencode] at h₁ h₂ h₃ h₄ h₅ h₆
    have hminute : minuteMicros ≤ U64_MAX := by decide
    have hmax : U64_MAX < 256 ^ 8 := by decide
    have hstart : beValue (beBytes 8 w.startMicros) = w.startMicros :=
      beValue_beBytes (by have := hfits.start_le; omega)
    have hend : beValue (beBytes 8 w.endMicros) = w.endMicros :=
      beValue_beBytes (by have := hfits.start_le; have := hfits.end_eq; omega)
    have hcount : beValue (beBytes 2 w.mappings.length) = w.mappings.length :=
      beValue_beBytes (lt_of_le_of_lt hfits.count (by decide))
    rw [h₁, h₂, h₃, h₄, h₅, h₆, hstart, hend, hcount]
    refine ⟨⟨?_, rfl, by decide⟩, ⟨hfits.aligned, hfits.start_le, hfits.end_eq⟩, hfits.count,
      w.mappings, [w.gaps], ⟨⟨rfl, hfits.mappings, hfits.rising⟩, rfl⟩, w.gaps, ⟨hfits.gaps, rfl⟩, rfl⟩
    simp only [Window.encode, length_append, beBytes_length, hmagic, length_singleton]
    omega

/-! ### Envelopes -/

namespace Batch

def encode (batch : Batch) : Bytes :=
  envelope batch.epoch batch.sequence batch.digest batch.signature batch.payload

structure Fits (sha256 : Bytes → Vector UInt8 32) (batch : Batch) : Prop where
  sequence : batch.sequence ≤ U64_MAX
  digest : sha256 batch.payload = batch.digest
  signature : batch.signature.length = SignatureSize
  payload_pos : 0 < batch.payload.length
  payload_le : batch.payload.length ≤ MaxPayloadSize
  window : parsePayload batch.payload = .ok batch.window

end Batch

theorem envelope_split (b : Bytes) (n : ℕ) :
    b = between 0 4 b ++ between 4 6 b ++ between 6 22 b ++ between 22 30 b ++ between 30 34 b
      ++ between 34 66 b ++ between 66 68 b ++ between 68 (68 + n) b ++ b.drop (68 + n) := by
  simp only [between_append_between, between_append_drop, drop_zero, Nat.reduceLeDiff, Nat.zero_le,
    Nat.le_add_right]

theorem envelope_fields {magic version epoch sequence len digest signatureLen signature : Bytes}
    (hmagic : magic.length = 4) (hversion : version.length = 2) (hepoch : epoch.length = 16)
    (hsequence : sequence.length = 8) (hlen : len.length = 4) (hdigest : digest.length = 32)
    (hsignatureLen : signatureLen.length = 2) (hsignature : signature.length = 4627) (payload : Bytes) :
    let b := magic ++ version ++ epoch ++ sequence ++ len ++ digest ++ signatureLen ++ signature ++ payload
    between 0 4 b = magic ∧ between 4 6 b = version ∧ between 6 22 b = epoch
      ∧ between 22 30 b = sequence ∧ between 30 34 b = len ∧ between 34 66 b = digest
      ∧ between 66 68 b = signatureLen ∧ between 68 4695 b = signature ∧ b.drop 4695 = payload := by
  have hdrop : (magic ++ version ++ epoch ++ sequence ++ len ++ digest ++ signatureLen
      ++ signature).length = 4695 := by
    simp only [length_append]
    omega
  refine ⟨?_, ?_, ?_, ?_, ?_, ?_, ?_, ?_, drop_left' hdrop⟩
  all_goals
    simp only [*, append_assoc, between_left, between_right hmagic, between_right hversion,
      between_right hepoch, between_right hsequence, between_right hlen, between_right hdigest,
      between_right hsignatureLen, reduceLeDiff, reduceSub]

theorem parse_envelope (sha256 : Bytes → Vector UInt8 32) (epoch : Vector UInt8 16) {sequence : ℕ}
    {signature payload : Bytes} (hsequence : sequence ≤ U64_MAX)
    (hsignature : signature.length = SignatureSize) (hpos : 0 < payload.length)
    (hle : payload.length ≤ MaxPayloadSize) :
    parse sha256 (envelope epoch sequence (sha256 payload) signature payload) = (parsePayload payload).map
        fun window => ⟨epoch, sequence, sha256 payload, signature, payload, window⟩ := by
  have hmagic : (ascii "KRUS").length = 4 := by decide
  have hepoch : epoch.toList.length = 16 := Vector.length_toList
  have hdigest : (sha256 payload).toList.length = 32 := Vector.length_toList
  obtain ⟨h₁, h₂, h₃, h₄, h₅, h₆, h₇, h₈, h₉⟩ := envelope_fields hmagic (beBytes_length 2 1) hepoch
    (beBytes_length 8 sequence) (beBytes_length 4 payload.length) hdigest
    (beBytes_length 2 signature.length) hsignature payload
  have hlen : (envelope epoch sequence (sha256 payload) signature payload).length
      = headerSize + SignatureSize + payload.length := by
    simp only [envelope, length_append, beBytes_length, hmagic, Vector.length_toList, hsignature]
    rfl
  have hmax : MaxPayloadSize < 256 ^ 4 := by decide
  have hsequence : beValue (beBytes 8 sequence) = sequence :=
    beValue_beBytes (lt_of_le_of_lt hsequence (by decide))
  have hpayload : beValue (beBytes 4 payload.length) = payload.length :=
    beValue_beBytes (lt_of_le_of_lt hle hmax)
  have hsignature : beValue (beBytes 2 signature.length) = SignatureSize := by
    rw [hsignature]
    exact beValue_beBytes (by decide)
  have hfit {n : ℕ} (v : Vector UInt8 n) : fit n v.toList = v := by
    rw [← append_nil v.toList, fit_append]
  have hstart : headerSize + SignatureSize = 4695 := rfl
  have hheader : headerSize = 68 := rfl
  rw [← envelope] at h₁ h₂ h₃ h₄ h₅ h₆ h₇ h₈ h₉
  unfold parse
  rw [if_neg (by rw [hlen]; unfold maxEncodedSize; omega), h₁, h₂, if_neg (by decide)]
  dsimp only
  rw [h₃, h₄, h₅, h₆, h₇, hsequence, hpayload, hsignature, hfit, hfit, if_neg (by omega),
    if_neg (by rw [hlen]; omega), hstart, hheader, h₈, h₉, if_neg (by simp)]
  cases parsePayload payload <;> rfl

/-- **One encoding of each batch.** -/
theorem parse_eq_ok {sha256 : Bytes → Vector UInt8 32} {b : Bytes} {batch : Batch} :
    parse sha256 b = .ok batch ↔ batch.Fits sha256 ∧ b = batch.encode := by
  constructor
  · intro h
    simp only [parse, guard_eq_ok, bind_eq_ok, not_or, not_not, not_lt] at h
    obtain ⟨⟨hlong, -⟩, ⟨hmagic, hversion⟩, ⟨hpos, hpayload, hsignature⟩, hlen, hdigest, window, hwindow,
      hbatch⟩ := h
    obtain rfl := ok.inj hbatch
    rw [hsignature] at hlen hdigest hwindow ⊢
    have hheader : headerSize = 68 := rfl
    have hsize : SignatureSize = 4627 := rfl
    have hpart {j : ℕ} (hj : j ≤ 4695) : j ≤ b.length := by omega
    have hrest : (b.drop (headerSize + SignatureSize)).length = beValue (between 30 34 b) := by
      rw [length_drop, ← hlen]
      omega
    have hsignatureLen : (between headerSize (headerSize + SignatureSize) b).length = SignatureSize := by
      rw [length_between (hpart (by decide)), Nat.add_sub_cancel_left]
    refine ⟨⟨?_, hdigest, hsignatureLen, ?_, ?_, hwindow⟩, ?_⟩
    · exact Nat.le_pred_of_lt (beValue_lt (n := 8) (length_between (hpart (by decide))))
    · rw [hrest]
      exact pos_of_ne_zero hpos
    · rw [hrest]
      exact hpayload
    · have hone : between 4 6 b = beBytes 2 1 := by
        rw [show 1 = beValue (between 4 6 b) from hversion.symm,
          beBytes_between 4 6 2 rfl (hpart (by decide))]
      have hend : between 66 68 b = beBytes 2 SignatureSize := by
        rw [← hsignature, beBytes_between 66 68 2 rfl (hpart (by decide))]
      have hepoch : (fit 16 (between 6 22 b)).toList = between 6 22 b :=
        toList_fit (length_between (hpart (by decide)))
      have hdigest : (fit 32 (between 34 66 b)).toList = between 34 66 b :=
        toList_fit (length_between (hpart (by decide)))
      conv_lhs => rw [envelope_split b SignatureSize, hmagic, hone, hend]
      dsimp only [Batch.encode, envelope]
      rw [hepoch, hdigest, hsignatureLen, hrest, beBytes_between 22 30 8 rfl (hpart (by decide)),
        beBytes_between 30 34 4 rfl (hpart (by decide))]
      rfl
  · intro h
    obtain ⟨hfits, rfl⟩ := h
    rw [Batch.encode, ← hfits.digest, parse_envelope sha256 batch.epoch hfits.sequence hfits.signature
      hfits.payload_pos hfits.payload_le, hfits.window, hfits.digest]
    rfl

end Karst.Relay.Go
