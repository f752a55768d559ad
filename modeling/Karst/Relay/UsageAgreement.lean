import Karst.Relay.UsageParser

/-!
# Usage batches on the wire

The relay writes usage batches and the server reads them, each by rules of its own.  They agree on the
layout, on the order of the mappings and on every bound; they do not agree on the text of an aquifer,
which the relay takes from its roster as it is.
-/

namespace Karst.Relay

open Option Accumulator UsageMapping SignedBatch Window
open List hiding Vector

open Go (MappingTotal validText)

/-! ### Contents -/

def Total.toGo (t : Total) : MappingTotal :=
  ⟨t.mapping.deployment.bytes, t.mapping.version.bytes, t.mapping.aquifer.bytes, t.bytes⟩

def Window.toGo (w : Window) : Go.Window :=
  ⟨w.startUs, w.endUs, w.totals.map Total.toGo, Window.gapBits w.gaps⟩

theorem encode_toGo (w : Window) : w.toGo.encode = w.payload := by
  rw [Go.Window.encode, toGo, payload, List.length_map, List.map_map]
  rfl

theorem gapBits_known (gaps : Finset Gap) : gapBits gaps &&& ~~~Go.knownGapMask = 0 := by
  simp only [gapBits, Gap.all, foldl_cons, foldl_nil]
  split_ifs <;> decide

/-! ### Order -/

theorem key_lt_iff {t u : Total} (ht : ∀ x ∈ t.mapping.deployment.bytes, 0x20 ≤ x)
    (ht' : ∀ x ∈ t.mapping.version.bytes, 0x20 ≤ x) (hu : ∀ x ∈ u.mapping.deployment.bytes, 0x20 ≤ x)
    (hu' : ∀ x ∈ u.mapping.version.bytes, 0x20 ≤ x) : t.toGo.key < u.toGo.key ↔ t.mapping < u.mapping := by
  have hpos {b : Bytes} (hb : ∀ x ∈ b, 0x20 ≤ x) : ∀ n ∈ b.map UInt8.toNat, 0 < n := by
    intro n hn
    obtain ⟨x, hx, rfl⟩ := mem_map.mp hn
    exact Nat.lt_of_lt_of_le (by decide) (UInt8.le_iff_toNat_le.mp (hb x hx))
  have htuple : t.mapping < u.mapping ↔ t.mapping.key < u.mapping.key := Iff.rfl
  have htext (x y : Text) : x < y ↔ x.bytes.map UInt8.toNat < y.bytes.map UInt8.toNat := Iff.rfl
  have hsame (x y : Text) : x = y ↔ x.bytes.map UInt8.toNat = y.bytes.map UInt8.toNat :=
    Text.bytes_injective.eq_iff.symm
  rw [htuple, key, key, Prod.Lex.toLex_lt_toLex, Prod.Lex.toLex_lt_toLex, htext, htext, htext, hsame, hsame]
  simp only [MappingTotal.key, Total.toGo, map_append, map_cons]
  exact (append_sep_lt_iff (hpos ht) (hpos hu)).trans
    (or_congr_right (and_congr_right fun _ => append_sep_lt_iff (hpos ht') (hpos hu')))

/-! ### Limits -/

def FromRoster (m : UsageMapping) : Prop := ∃ row, UsageMapping.fromRow row = some m

/-- No white space around it and no control characters. -/
def Tidy (t : Text) : Prop := trimSpace t.bytes = t.bytes ∧ hasControl t.bytes = false

instance (t : Text) : Decidable (Tidy t) := inferInstanceAs (Decidable (_ ∧ _))

theorem validText_iff (t : Text) : validText t.bytes = true ↔ Tidy t := by
  simp only [validText, t.valid, Bool.true_and, Bool.and_eq_true, beq_iff_eq, Bool.not_eq_true', Tidy]

theorem range_of_isLowerHex {x : UInt8} (h : isLowerHex x = true) : 0x20 ≤ x ∧ x < 0x7F := by
  simp only [isLowerHex, isDigit, Bool.or_eq_true, Bool.and_eq_true, decide_eq_true_eq,
    UInt8.le_iff_toNat_le, UInt8.lt_iff_toNat_lt, UInt8.reduceToNat] at h ⊢
  omega

theorem tidy_of_isLowerHex {t : Text} (h : t.bytes.all isLowerHex = true) : Tidy t := by
  have hhex := all_eq_true.mp h
  refine ⟨trimSpace_eq_self ?_, hasControl_eq_false fun x hx => range_of_isLowerHex (hhex x hx)⟩
  have hspaces : ∀ w ∈ spaces, ∀ x ∈ w, isLowerHex x = false := by
    decide +kernel
  intro w hw x hx hmem
  exact absurd (hhex x hmem) (by rw [hspaces w hw x hx]; decide)

theorem FromRoster.tidy {m : UsageMapping} (h : FromRoster m) : Tidy m.deployment ∧ Tidy m.version := by
  obtain ⟨row, hrow⟩ := h
  obtain ⟨deployment, -, hrow⟩ := bind_eq_some_iff.mp hrow
  obtain ⟨version, -, hrow⟩ := bind_eq_some_iff.mp hrow
  split at hrow
  · cases hrow
  · rename_i hvalid
    obtain rfl := some.inj hrow
    simp only [Bool.or_eq_true, not_or, bne_iff_ne, ne_eq, not_not, Bool.not_eq_true',
      Bool.not_eq_false, Bool.not_eq_true] at hvalid
    obtain ⟨⟨⟨⟨⟨-, -⟩, htrim⟩, hcontrol⟩, -⟩, hhex⟩ := hvalid
    exact ⟨⟨htrim, hcontrol⟩, tidy_of_isLowerHex hhex⟩

theorem key_lt_of_roster {t u : Total} (ht : FromRoster t.mapping) (hu : FromRoster u.mapping) :
    t.toGo.key < u.toGo.key ↔ t.mapping < u.mapping :=
  key_lt_iff (le_of_hasControl ht.tidy.1.2) (le_of_hasControl ht.tidy.2.2)
    (le_of_hasControl hu.tidy.1.2) (le_of_hasControl hu.tidy.2.2)

theorem fits_total_iff {t : Total} (hroster : FromRoster t.mapping)
    (hrecordable : t.mapping.recordable = true) (hbytes : t.bytes ≤ U64_MAX) :
    t.toGo.Fits ↔ Tidy t.mapping.aquifer := by
  obtain ⟨hdeployment, hversion, haquifer⟩ := recordable_iff.mp hrecordable
  constructor
  · intro h
    exact (validText_iff _).mp h.aquifer.2
  · intro h
    exact ⟨⟨hdeployment, (validText_iff _).mpr hroster.tidy.1⟩,
      ⟨hversion, (validText_iff _).mpr hroster.tidy.2⟩, ⟨haquifer, (validText_iff _).mpr h⟩, hbytes⟩

namespace Accumulator

variable {a : Accumulator}

theorem fits_toGo_iff (h : a.Retains FromRoster) :
    a.sealWindow.toGo.Fits ↔ ∀ t ∈ a.sealWindow.totals, Tidy t.mapping.aquifer := by
  have hroster (t : Total) (ht : t ∈ a.sealWindow.totals) : FromRoster t.mapping :=
    (h.mapping t.mapping (mem_totals_sealWindow ht).1).2
  have hbytes (t : Total) (ht : t ∈ a.sealWindow.totals) : t.bytes ≤ U64_MAX := by
    rw [(mem_totals_sealWindow ht).2]
    exact h.bytes t.mapping
  constructor
  · intro hfits t ht
    exact (fits_total_iff (hroster t ht) (h.recordable t ht) (hbytes t ht)).mp
      (hfits.mappings t.toGo (mem_map_of_mem ht))
  · intro htidy
    have hend := a.end_le
    rw [a.end_eq] at hend
    refine ⟨Nat.mod_eq_zero_of_dvd a.aligned, Nat.le_sub_of_add_le hend, a.end_eq, ?_, ?_, ?_,
      gapBits_known _⟩
    · rw [toGo, length_map]
      exact h.length_totals
    · intro m hm
      obtain ⟨t, ht, rfl⟩ := mem_map.mp hm
      exact (fits_total_iff (hroster t ht) (h.recordable t ht) (hbytes t ht)).mpr (htidy t ht)
    · refine pairwise_map.mpr (a.sealWindow_sorted.imp_of_mem ?_)
      intro t u ht hu hlt
      exact (key_lt_of_roster (hroster t ht) (hroster u hu)).mpr hlt

end Accumulator

/-! ### Batches -/

theorem payload_ne_nil (w : Window) : w.payload ≠ [] := by
  simp [payload]

theorem eq_of_parse {sha256 : Bytes → Vector UInt8 32} {b b' : Bytes} {batch batch' : Go.Batch}
    (h : Go.parse sha256 b = .ok batch) (h' : Go.parse sha256 b' = .ok batch')
    (hepoch : batch.epoch = batch'.epoch) (hsequence : batch.sequence = batch'.sequence)
    (hwindow : batch.window = batch'.window) (hsignature : batch.signature = batch'.signature) : b = b' := by
  obtain ⟨hfits, rfl⟩ := Go.parse_eq_ok.mp h
  obtain ⟨hfits', rfl⟩ := Go.parse_eq_ok.mp h'
  have hpayload : batch.payload = batch'.payload := by
    rw [(Go.parsePayload_eq_ok.mp hfits.window).2, (Go.parsePayload_eq_ok.mp hfits'.window).2, hwindow]
  rw [Go.Batch.encode, Go.Batch.encode, ← hfits.digest, ← hfits'.digest, hepoch, hsequence, hsignature,
    hpayload]

/-- **Usage batches on the wire** are accepted with the same contents, exactly if no aquifer in them
has white space around it or a control character in it. -/
theorem parse_create_iff (E : BatchExternals) (id : BatchId) {startUs : ℕ} {a : Accumulator}
    (hnew : Accumulator.new startUs = some a) {evs : List AccumulatorEvent}
    (hevs : ∀ e ∈ evs, Accumulator.admissible FromRoster e) :
    (∃ payload, (a.run evs).sealWindow.encode = .ok payload
      ∧ ((∃ batch, SignedBatch.create E id payload = .ok batch) ↔
        (E.signUsage (SignedBatch.signingInput id payload (E.sha256 payload))).isSome = true)
      ∧ ∀ batch, SignedBatch.create E id payload = .ok batch →
        ((∃ received, Go.parse E.sha256 batch.encoded = .ok received ∧ received.epoch = id.epoch
            ∧ received.sequence = id.sequence ∧ received.signature = batch.signature
            ∧ received.window = (a.run evs).sealWindow.toGo)
          ↔ ∀ t ∈ (a.run evs).sealWindow.totals, Tidy t.mapping.aquifer))
    ∧ ∀ b b' received received', Go.parse E.sha256 b = .ok received →
      Go.parse E.sha256 b' = .ok received' → received.epoch = received'.epoch →
      received.sequence = received'.sequence → received.window = received'.window →
      received.signature = received'.signature → b = b' := by
  have hretains := retains_run hevs (retains_new hnew)
  obtain ⟨hencode, hlen⟩ := encode_sealWindow hretains
  have hne := payload_ne_nil (a.run evs).sealWindow
  have hcreate := create_eq_ok E id hne hlen
  refine ⟨⟨_, hencode, ?_, ?_⟩, fun b b' _ _ => eq_of_parse⟩
  · rw [isSome_iff_exists]
    constructor
    · intro h
      obtain ⟨batch, hbatch⟩ := h
      obtain ⟨signature, hsign, -⟩ := (hcreate batch).mp hbatch
      exact ⟨signature, hsign⟩
    · intro h
      obtain ⟨signature, hsign⟩ := h
      exact ⟨_, (hcreate _).mpr ⟨signature, hsign, rfl⟩⟩
  · intro batch hbatch
    obtain ⟨signature, -, rfl⟩ := (hcreate batch).mp hbatch
    have hsize : signature.toList.length = Go.SignatureSize := Vector.length_toList
    rw [Go.parse_envelope E.sha256 id.epoch id.sequence_le hsize
      (length_pos_iff.mpr hne) hlen, ← fits_toGo_iff hretains]
    constructor
    · intro h
      obtain ⟨received, hparse, -, -, -, hwindow⟩ := h
      obtain ⟨window, hpayload, rfl⟩ := map_eq_ok.mp hparse
      rw [← hwindow]
      exact (Go.parsePayload_eq_ok.mp hpayload).1
    · intro hfits
      have hpayload := Go.parsePayload_eq_ok.mpr ⟨hfits, (encode_toGo _).symm⟩
      rw [hpayload]
      exact ⟨_, rfl, rfl, rfl, rfl, rfl⟩

/-! ### Two aquifers -/

def plainExternals : BatchExternals := ⟨fit 32, fun _ => some (Vector.replicate SIG_LEN 0)⟩

def firstBatch : BatchId := ⟨Vector.replicate 16 0, 0, Nat.zero_le _⟩

def hexVersion : Text := ⟨List.replicate 64 0x61, by decide +kernel⟩

def plainDeployment : Text := ⟨ascii "d", validUtf8_d⟩

def clientMapping (aquifer : Text) : UsageMapping := ⟨plainDeployment, hexVersion, aquifer⟩

theorem clientMapping_fromRoster (aquifer : Text) : FromRoster (clientMapping aquifer) := by
  refine ⟨⟨aquifer, some (.string plainDeployment), some (.string hexVersion)⟩, ?_⟩
  have hvalid : ¬ (plainDeployment.bytes.isEmpty || plainDeployment.bytes.length > 128
      || trimSpace plainDeployment.bytes != plainDeployment.bytes || hasControl plainDeployment.bytes
      || hexVersion.bytes.length != 64 || !hexVersion.bytes.all isLowerHex) = true := by
    decide +kernel
  exact if_neg (t := none) hvalid

def plainAquifer : Text := ⟨ascii "a", validUtf8_a⟩

def spacedAquifer : Text := ⟨ascii " a", by decide⟩

def minuteZero : Accumulator := ⟨0, BUCKET_MICROS, ∅, ∅, Nat.dvd_zero _, rfl, BUCKET_MICROS_le⟩

theorem new_zero : new 0 = some minuteZero := rfl

def hundredBytes (aquifer : Text) : List AccumulatorEvent :=
  [.record 1 ⟨some (clientMapping aquifer), 100⟩, .record 2 ⟨some (clientMapping plainDeployment), 50⟩]

theorem hundredBytes_admissible (aquifer : Text) : ∀ e ∈ hundredBytes aquifer, admissible FromRoster e := by
  have hmapping (a : Text) (t n : ℕ) (hn : n ≤ U64_MAX) :
      admissible FromRoster (.record t ⟨some (clientMapping a), n⟩) :=
    ⟨fun m hm => some.inj hm ▸ clientMapping_fromRoster a, hn⟩
  exact forall_mem_cons.mpr ⟨hmapping _ _ _ (by decide), forall_mem_singleton.mpr (hmapping _ _ _ (by decide))⟩

theorem tidy_aquifer_survives :
    ∃ payload, (minuteZero.run (hundredBytes plainAquifer)).sealWindow.encode = .ok payload
      ∧ ∀ batch, SignedBatch.create plainExternals firstBatch payload = .ok batch →
        ∃ received, Go.parse plainExternals.sha256 batch.encoded = .ok received
          ∧ received.epoch = firstBatch.epoch ∧ received.sequence = firstBatch.sequence
          ∧ received.signature = batch.signature ∧ received.window
            = (minuteZero.run (hundredBytes plainAquifer)).sealWindow.toGo := by
  have hwire := parse_create_iff plainExternals firstBatch new_zero (hundredBytes_admissible plainAquifer)
  obtain ⟨payload, hencode, -, hparse⟩ := hwire.1
  exact ⟨payload, hencode, fun batch hbatch => (hparse batch hbatch).mpr (by decide +kernel)⟩

def onTheWire (aquifer : Text) : Except String Go.Window := do
  let payload ← (minuteZero.run (hundredBytes aquifer)).sealWindow.encode
  let batch ← SignedBatch.create plainExternals firstBatch payload
  let received ← Go.parse plainExternals.sha256 batch.encoded
  return received.window

theorem spaced_aquifer_refused :
    onTheWire spacedAquifer = .error "relay usage: invalid batch: invalid mapping text" := by
  have hretains := retains_run (hundredBytes_admissible spacedAquifer) (retains_new new_zero)
  obtain ⟨hencode, hlen⟩ := encode_sealWindow hretains
  have hne := payload_ne_nil (minuteZero.run (hundredBytes spacedAquifer)).sealWindow
  have hcreate := (create_eq_ok plainExternals firstBatch hne hlen _).mpr
    ⟨Vector.replicate SIG_LEN 0, rfl, rfl⟩
  have hpayload : Go.parsePayload (minuteZero.run (hundredBytes spacedAquifer)).sealWindow.payload
        = .error "relay usage: invalid batch: invalid mapping text" := by
    decide +kernel
  rw [onTheWire, hencode, ok_bind, hcreate, ok_bind]
  have hsize : (Vector.replicate SIG_LEN (0 : UInt8)).toList.length = Go.SignatureSize :=
    Vector.length_toList
  rw [Go.parse_envelope plainExternals.sha256 firstBatch.epoch firstBatch.sequence_le hsize
    (length_pos_iff.mpr hne) hlen, hpayload]
  rfl

end Karst.Relay
