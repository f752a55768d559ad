import Karst.Relay.Usage

/-!
# Usage batches

What the relay writes of a sealed window: the payload of `Window::encode` and the envelope of
`SignedBatch::create`, in `karst-relay/src/usage.rs`.
-/

namespace Karst.Relay

open Option Std.TreeMap
open List hiding Vector

def u16Bytes (refusal : String) (n : ℕ) : Except String Bytes :=
  if n < 65536 then .ok (beBytes 2 n) else .error refusal

theorem u16Bytes_eq {refusal : String} {n : ℕ} (h : n < 65536) :
    u16Bytes refusal n = .ok (beBytes 2 n) := if_pos h

/-! ### Payloads -/

def Gap.all : List Gap := [.unresolvedMapping, .capacity, .overflow, .clock, .observationLost]

theorem Gap.card_le (gaps : Finset Gap) : gaps.card ≤ 5 := by
  refine (Finset.card_le_card (t := Gap.all.toFinset) ?_).trans (by decide)
  intro gap _
  cases gap <;> decide

def Gap.index : Gap → UInt8
  | .unresolvedMapping => 0
  | .capacity => 1
  | .overflow => 2
  | .clock => 3
  | .observationLost => 4

namespace Window

def gapBits (gaps : Finset Gap) : UInt8 :=
  Gap.all.foldl (fun bits gap => if gap ∈ gaps then bits ||| 1 <<< gap.index else bits) 0

def encodeField (field : Bytes) : Except String Bytes := do
  let len ← u16Bytes "mapping field too long" field.length
  return len ++ field

/-- The loop over the totals, with the mapping before. -/
def encodeTotals : Option UsageMapping → List Total → Except String Bytes
  | _, [] => .ok []
  | previous, t :: ts =>
    if t.mapping.recordable = false then .error "invalid usage mapping"
    else if previous.any (fun p => t.mapping ≤ p) then
      .error "unsorted or duplicate usage mapping"
    else do
      let deployment ← encodeField t.mapping.deployment.bytes
      let version ← encodeField t.mapping.version.bytes
      let aquifer ← encodeField t.mapping.aquifer.bytes
      let rest ← encodeTotals (some t.mapping) ts
      return deployment ++ version ++ aquifer ++ beBytes 8 t.bytes ++ rest

def encode (w : Window) : Except String Bytes :=
  if w.endUs ≤ w.startUs ∨ w.endUs - w.startUs ≠ BUCKET_MICROS ∨ MAX_MAPPINGS < w.totals.length
      ∨ 8 < w.gaps.card then .error "invalid usage window"
  else do
    let count ← u16Bytes "too many mappings" w.totals.length
    let totals ← encodeTotals none w.totals
    let out := ascii "KRUM" ++ beBytes 2 1 ++ beBytes 8 w.startUs ++ beBytes 8 w.endUs ++ count
      ++ totals ++ [gapBits w.gaps]
    if MAX_BATCH_BYTES < out.length then .error "usage batch too large" else .ok out

def fieldBytes (field : Bytes) : Bytes := beBytes 2 field.length ++ field

def totalBytes (t : Total) : Bytes :=
  fieldBytes t.mapping.deployment.bytes ++ fieldBytes t.mapping.version.bytes
    ++ fieldBytes t.mapping.aquifer.bytes ++ beBytes 8 t.bytes

def payload (w : Window) : Bytes :=
  ascii "KRUM" ++ beBytes 2 1 ++ beBytes 8 w.startUs ++ beBytes 8 w.endUs
    ++ beBytes 2 w.totals.length ++ (w.totals.map totalBytes).flatten ++ [gapBits w.gaps]

theorem recordable_iff {m : UsageMapping} : m.recordable = true ↔
    (0 < m.deployment.bytes.length ∧ m.deployment.bytes.length ≤ 128)
      ∧ (0 < m.version.bytes.length ∧ m.version.bytes.length ≤ 64)
      ∧ 0 < m.aquifer.bytes.length ∧ m.aquifer.bytes.length ≤ 1024 := by
  simp [UsageMapping.recordable, length_pos_iff, and_assoc]

theorem length_fieldBytes (field : Bytes) : (fieldBytes field).length = 2 + field.length := by
  rw [fieldBytes, length_append, beBytes_length]

theorem length_totalBytes_le {t : Total} (h : t.mapping.recordable = true) :
    (totalBytes t).length ≤ 1230 := by
  obtain ⟨⟨-, hdeployment⟩, ⟨-, hversion⟩, -, haquifer⟩ := recordable_iff.mp h
  simp only [totalBytes, length_append, length_fieldBytes, beBytes_length]
  omega

theorem encodeField_eq {field : Bytes} (h : field.length ≤ 1024) :
    encodeField field = .ok (fieldBytes field) := by
  rw [encodeField, u16Bytes_eq (Nat.lt_of_le_of_lt h (by decide)), ok_bind]
  rfl

theorem encodeTotals_eq {previous : Option UsageMapping} {ts : List Total}
    (hrecordable : ∀ t ∈ ts, t.mapping.recordable = true)
    (hsorted : ts.Pairwise fun t u => t.mapping < u.mapping)
    (hprevious : ∀ p ∈ previous, ∀ t ∈ ts, p < t.mapping) :
    encodeTotals previous ts = .ok (ts.map totalBytes).flatten := by
  induction ts generalizing previous with
  | nil => rfl
  | cons t ts ih =>
    obtain ⟨ht, hrecordable⟩ := forall_mem_cons.mp hrecordable
    obtain ⟨hhead, hsorted⟩ := pairwise_cons.mp hsorted
    obtain ⟨⟨-, hdeployment⟩, ⟨-, hversion⟩, -, haquifer⟩ := recordable_iff.mp ht
    have hbelow : ¬ (previous.any fun p => decide (t.mapping ≤ p)) = true := by
      rw [Option.any_eq_true]
      intro hany
      obtain ⟨p, hp, hle⟩ := hany
      exact absurd (hprevious p hp t mem_cons_self) (not_lt.mpr (of_decide_eq_true hle))
    have hrest : encodeTotals (some t.mapping) ts = .ok (ts.map totalBytes).flatten := by
      refine ih hrecordable hsorted ?_
      intro p hp u hu
      rw [← some.inj hp]
      exact hhead u hu
    rw [encodeTotals, if_neg (by rw [ht]; decide), if_neg hbelow,
      encodeField_eq (hdeployment.trans (by decide)), ok_bind,
      encodeField_eq (hversion.trans (by decide)), ok_bind, encodeField_eq haquifer, ok_bind, hrest,
      ok_bind]
    rfl

theorem length_flatten_le {ts : List Total} (h : ∀ t ∈ ts, t.mapping.recordable = true) :
    (ts.map totalBytes).flatten.length ≤ ts.length * 1230 := by
  induction ts with
  | nil => exact Nat.zero_le _
  | cons t ts ih =>
    obtain ⟨ht, hts⟩ := forall_mem_cons.mp h
    have hhead := length_totalBytes_le ht
    have htail := ih hts
    rw [map_cons, flatten_cons, length_append, length_cons, Nat.succ_mul]
    omega

theorem length_payload_le {w : Window} (hsize : w.totals.length ≤ MAX_MAPPINGS)
    (hrecordable : ∀ t ∈ w.totals, t.mapping.recordable = true) : w.payload.length ≤ MAX_BATCH_BYTES := by
  have hmagic : (ascii "KRUM").length = 4 := by decide
  have hlen : w.payload.length = (w.totals.map totalBytes).flatten.length + 25 := by
    simp only [payload, length_append, beBytes_length, length_singleton, hmagic]
    omega
  calc w.payload.length = (w.totals.map totalBytes).flatten.length + 25 := hlen
    _ ≤ MAX_MAPPINGS * 1230 + 25 :=
      Nat.add_le_add_right ((length_flatten_le hrecordable).trans (Nat.mul_le_mul_right 1230 hsize)) 25
    _ ≤ MAX_BATCH_BYTES := by decide

theorem encode_eq {w : Window} (hend : w.endUs = w.startUs + BUCKET_MICROS)
    (hsize : w.totals.length ≤ MAX_MAPPINGS) (hrecordable : ∀ t ∈ w.totals, t.mapping.recordable = true)
    (hsorted : w.totals.Pairwise fun t u => t.mapping < u.mapping) : w.encode = .ok w.payload := by
  have hgaps := Gap.card_le w.gaps
  have hpos : 0 < BUCKET_MICROS := by decide
  have hwindow : ¬ (w.endUs ≤ w.startUs ∨ w.endUs - w.startUs ≠ BUCKET_MICROS
      ∨ MAX_MAPPINGS < w.totals.length ∨ 8 < w.gaps.card) := by
    omega
  have hlen : ¬ MAX_BATCH_BYTES < w.payload.length :=
    Nat.not_lt.mpr (length_payload_le hsize hrecordable)
  rw [encode, if_neg hwindow, u16Bytes_eq (Nat.lt_of_le_of_lt hsize (by decide)), ok_bind,
    encodeTotals_eq hrecordable hsorted (by simp), ok_bind]
  exact if_neg hlen

end Window

/-! ### Envelopes -/

structure BatchId where
  epoch : Vector UInt8 16
  sequence : ℕ
  sequence_le : sequence ≤ U64_MAX

/-- What the batch is digested and signed with; a signature can fail for want of entropy. -/
structure BatchExternals where
  sha256 : Bytes → Vector UInt8 32
  signUsage : Bytes → Option (Vector UInt8 SIG_LEN)

structure SignedBatch where
  id : BatchId
  digest : Vector UInt8 32
  signature : Bytes
  encoded : Bytes

def envelope (epoch : Vector UInt8 16) (sequence : ℕ) (digest : Vector UInt8 32)
    (signature payload : Bytes) : Bytes :=
  ascii "KRUS" ++ beBytes 2 1 ++ epoch.toList ++ beBytes 8 sequence ++ beBytes 4 payload.length
    ++ digest.toList ++ beBytes 2 signature.length ++ signature ++ payload

namespace SignedBatch

def signingInput (id : BatchId) (payload : Bytes) (digest : Vector UInt8 32) : Bytes :=
  ascii "karst-relay-usage-batch-v1" ++ [0] ++ id.epoch.toList ++ beBytes 8 id.sequence
    ++ beBytes 4 payload.length ++ digest.toList ++ payload

def create (E : BatchExternals) (id : BatchId) (payload : Bytes) : Except String SignedBatch :=
  if 2 ^ 32 ≤ payload.length then .error "usage batch too large"
  else if payload = [] ∨ MAX_BATCH_BYTES < payload.length then .error "invalid usage batch size"
  else do
    let digest := E.sha256 payload
    let signature ← okOr "signing the usage batch failed" (E.signUsage (signingInput id payload digest))
    let signatureLen ← u16Bytes "out of range integral type conversion attempted"
      signature.toList.length
    return ⟨id, digest, signature.toList,
      ascii "KRUS" ++ beBytes 2 1 ++ id.epoch.toList ++ beBytes 8 id.sequence
        ++ beBytes 4 payload.length ++ digest.toList ++ signatureLen ++ signature.toList ++ payload⟩

theorem create_eq_ok (E : BatchExternals) (id : BatchId) {payload : Bytes} (hne : payload ≠ [])
    (hlen : payload.length ≤ MAX_BATCH_BYTES) (batch : SignedBatch) : create E id payload = .ok batch ↔
      ∃ signature, E.signUsage (signingInput id payload (E.sha256 payload)) = some signature
        ∧ batch = ⟨id, E.sha256 payload, signature.toList,
          envelope id.epoch id.sequence (E.sha256 payload) signature.toList payload⟩ := by
  have hmax : MAX_BATCH_BYTES < 2 ^ 32 := by decide
  have hbounds : ¬ (payload = [] ∨ MAX_BATCH_BYTES < payload.length) :=
    not_or.mpr ⟨hne, Nat.not_lt.mpr hlen⟩
  rw [create, if_neg (Nat.not_le.mpr (Nat.lt_of_le_of_lt hlen hmax)), if_neg hbounds, bind_eq_ok]
  refine exists_congr fun signature => ?_
  have hlength : signature.toList.length < 65536 := by
    rw [Vector.length_toList]
    decide
  rw [okOr_eq_ok, u16Bytes_eq hlength, ok_bind]
  refine and_congr_right fun _ => ?_
  exact ⟨fun h => (Except.ok.inj h).symm, fun h => by rw [h]; rfl⟩

end SignedBatch

/-! ### What an accumulator retains -/

inductive AccumulatorEvent where
  | record (completedUs : ℕ) (delivery : DeliveryUsage UsageMapping)
  | markGap (gap : Gap)

namespace Accumulator

def step (a : Accumulator) : AccumulatorEvent → Accumulator
  | .record completedUs delivery => a.record completedUs delivery
  | .markGap gap => a.markGap gap

def run (a : Accumulator) (evs : List AccumulatorEvent) : Accumulator := Runs.run step a evs

/-- A delivery as the hub makes it: a mapping of its origin, if any, and a 64-bit length. -/
def admissible (origin : UsageMapping → Prop) : AccumulatorEvent → Prop
  | .record _ delivery => (∀ m, delivery.mapping = some m → origin m)
      ∧ delivery.payloadBytes ≤ U64_MAX
  | .markGap _ => True

/-- Bounded metadata of the deliveries' origin, 64-bit totals, and not too many. -/
structure Retains (origin : UsageMapping → Prop) (a : Accumulator) : Prop where
  mapping : ∀ m ∈ a.totals, m.recordable = true ∧ origin m
  bytes : ∀ m, a.total m ≤ U64_MAX
  size : a.totals.size ≤ MAX_MAPPINGS

variable {origin : UsageMapping → Prop} {a : Accumulator}

theorem retains_new {startUs : ℕ} (h : new startUs = some a) : a.Retains origin := by
  unfold new at h
  split at h
  · split at h
    · obtain rfl := some.inj h
      exact ⟨fun m hm => absurd hm not_mem_emptyc, fun m => Nat.zero_le _, Nat.zero_le _⟩
    · cases h
  · cases h

variable (h : a.Retains origin)
include h

theorem retains_record {completedUs : ℕ}
    {delivery : DeliveryUsage UsageMapping} (horigin : ∀ m, delivery.mapping = some m → origin m)
    (hbytes : delivery.payloadBytes ≤ U64_MAX) : (a.record completedUs delivery).Retains origin := by
  rcases a.record_cases completedUs delivery with ⟨gap, hgap⟩ | ⟨m, -, -, hm, hrecordable, hroom, hadd⟩
  · rw [hgap]
    exact ⟨h.mapping, h.bytes, h.size⟩
  · rw [hadd]
    refine ⟨?_, ?_, ?_⟩
    · intro m' hm'
      rcases mem_insert.mp hm' with heq | hmem
      · rw [← compare_eq_iff_eq.mp heq]
        exact ⟨hrecordable, horigin m hm⟩
      · exact h.mapping m' hmem
    · intro m'
      rw [total_insert]
      split
      · rcases hroom with ⟨-, hfits⟩ | ⟨hzero, -⟩
        · exact hfits
        · rw [hzero, Nat.zero_add]
          exact hbytes
      · exact h.bytes m'
    · rw [size_insert]
      rcases hroom with ⟨hmem, -⟩ | ⟨-, hsize⟩
      · rw [if_pos (mem_iff_contains.mp hmem)]
        exact h.size
      · split
        · exact h.size
        · exact hsize

theorem retains_step {e : AccumulatorEvent} (he : admissible origin e) : (a.step e).Retains origin := by
  cases e with
  | record completedUs delivery => exact retains_record h he.1 he.2
  | markGap gap => exact ⟨h.mapping, h.bytes, h.size⟩

omit h

theorem retains_run {evs : List AccumulatorEvent} (hevs : ∀ e ∈ evs, admissible origin e)
    (h : a.Retains origin) : (a.run evs).Retains origin := by
  induction evs generalizing a with
  | nil => exact h
  | cons e evs ih =>
    obtain ⟨he, hevs⟩ := forall_mem_cons.mp hevs
    exact ih hevs (retains_step h he)

theorem mem_totals_sealWindow {t : Total} (h : t ∈ a.sealWindow.totals) :
    t.mapping ∈ a.totals ∧ t.bytes = a.total t.mapping := by
  obtain ⟨e, he, rfl⟩ := mem_map.mp h
  have hsome := mem_toList_iff_getElem?_eq_some.mp he
  refine ⟨mem_iff_isSome_getElem?.mpr (by rw [hsome]; rfl), ?_⟩
  rw [total, hsome]
  rfl

theorem sealWindow_sorted (a : Accumulator) :
    a.sealWindow.totals.Pairwise fun t u => t.mapping < u.mapping := by
  refine pairwise_map.mpr ?_
  exact (ordered_keys_toList).imp fun h => compare_lt_iff_lt.mp h

include h

theorem Retains.recordable : ∀ t ∈ a.sealWindow.totals, t.mapping.recordable = true :=
  fun t ht => (h.mapping t.mapping (mem_totals_sealWindow ht).1).1

theorem Retains.length_totals : a.sealWindow.totals.length ≤ MAX_MAPPINGS := by
  rw [sealWindow, length_map, Std.TreeMap.length_toList]
  exact h.size

theorem encode_sealWindow : a.sealWindow.encode = .ok a.sealWindow.payload
      ∧ a.sealWindow.payload.length ≤ MAX_BATCH_BYTES :=
  ⟨Window.encode_eq a.end_eq h.length_totals h.recordable a.sealWindow_sorted,
    Window.length_payload_le h.length_totals h.recordable⟩

end Accumulator

end Karst.Relay
