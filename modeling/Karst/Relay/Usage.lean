import Karst.Foundations.Texts
import Karst.Relay.Hub

/-!
# Usage windows

The usage mappings of `karst-relay/src/roster.rs` and the minute accumulator of
`karst-relay/src/usage.rs`: bytes are added up per mapping, and whatever cannot be added leaves a gap
mark.
-/

namespace Karst.Relay

open Option
open List hiding Vector

def BUCKET_MICROS : ℕ := 60000000
def MAX_MAPPINGS : ℕ := 4096
def MAX_BATCH_BYTES : ℕ := 8 * 1024 * 1024

/-! ### Mappings -/

theorem validUtf8_a : validUtf8 (ascii "a") = true := by decide

theorem validUtf8_d : validUtf8 (ascii "d") = true := by decide

/-- A value of the roster file, as far as it is looked at. -/
inductive TomlValue where
  | string (s : Text)
  | other

def TomlValue.asStr : TomlValue → Option Text
  | .string s => some s
  | .other => none

/-- The fields of a client's row that attribute its usage. -/
structure ClientRow where
  aquifer : Text
  usageDeployment : Option TomlValue
  usageMapping : Option TomlValue

structure UsageMapping where
  deployment : Text
  version : Text
  aquifer : Text

namespace UsageMapping

def key (m : UsageMapping) : Text ×ₗ Text ×ₗ Text := toLex (m.deployment, toLex (m.version, m.aquifer))

theorem key_injective : Function.Injective key := by
  intro m n h
  obtain ⟨hdeployment, hrest⟩ := Prod.mk.inj (toLex.injective h)
  obtain ⟨hversion, haquifer⟩ := Prod.mk.inj (toLex.injective hrest)
  cases m
  cases n
  simp only at hdeployment hversion haquifer
  rw [hdeployment, hversion, haquifer]

instance : LinearOrder UsageMapping := LinearOrder.lift' key key_injective

def isLowerHex (b : UInt8) : Bool := isDigit b || (0x61 ≤ b && b ≤ 0x66)

def fromRow (row : ClientRow) : Option UsageMapping := do
  let deployment ← row.usageDeployment.bind TomlValue.asStr
  let version ← row.usageMapping.bind TomlValue.asStr
  if deployment.bytes.isEmpty || deployment.bytes.length > 128
      || trimSpace deployment.bytes != deployment.bytes || hasControl deployment.bytes
      || version.bytes.length != 64 || !version.bytes.all isLowerHex then none
  else some ⟨deployment, version, row.aquifer⟩

/-- The bounds that are kept on what is retained. -/
def recordable (m : UsageMapping) : Bool :=
  !(m.deployment.bytes.isEmpty || m.deployment.bytes.length > 128 || m.version.bytes.isEmpty
    || m.version.bytes.length > 64 || m.aquifer.bytes.isEmpty || m.aquifer.bytes.length > 1024)

end UsageMapping

/-! ### Windows -/

/-- Reasons why observed bytes cannot establish complete coverage. -/
inductive Gap where
  | unresolvedMapping
  | capacity
  | overflow
  | clock
  | observationLost
  deriving DecidableEq

structure Total where
  mapping : UsageMapping
  bytes : ℕ

structure Window where
  startUs : ℕ
  endUs : ℕ
  totals : List Total
  gaps : Finset Gap

theorem BUCKET_MICROS_le : BUCKET_MICROS ≤ U64_MAX := by decide

structure Accumulator where
  startUs : ℕ
  endUs : ℕ
  totals : Std.TreeMap UsageMapping ℕ
  gaps : Finset Gap
  aligned : BUCKET_MICROS ∣ startUs
  end_eq : endUs = startUs + BUCKET_MICROS
  end_le : endUs ≤ U64_MAX

namespace Accumulator

/-- Open a minute; bounds that are no minute or overflow are refused. -/
def new (startUs : ℕ) : Option Accumulator :=
  if haligned : BUCKET_MICROS ∣ startUs then
    if hfits : startUs + BUCKET_MICROS ≤ U64_MAX then
      some ⟨startUs, startUs + BUCKET_MICROS, ∅, ∅, haligned, rfl, hfits⟩
    else none
  else none

def markGap (a : Accumulator) (gap : Gap) : Accumulator := { a with gaps := insert gap a.gaps }

def record (a : Accumulator) (completedUs : ℕ) (delivery : DeliveryUsage UsageMapping) :
    Accumulator :=
  if completedUs < a.startUs ∨ a.endUs ≤ completedUs then a.markGap .clock
  else
    match delivery.mapping with
    | none => a.markGap .unresolvedMapping
    | some m =>
      if m.recordable = false then a.markGap .unresolvedMapping
      else
        match a.totals[m]? with
        | some bytes =>
          if bytes + delivery.payloadBytes ≤ U64_MAX then
            { a with totals := a.totals.insert m (bytes + delivery.payloadBytes) }
          else a.markGap .overflow
        | none =>
          if a.totals.size < MAX_MAPPINGS then
            { a with totals := a.totals.insert m delivery.payloadBytes }
          else a.markGap .capacity

def sealWindow (a : Accumulator) : Window :=
  ⟨a.startUs, a.endUs, a.totals.toList.map fun e => ⟨e.1, e.2⟩, a.gaps⟩

def total (a : Accumulator) (m : UsageMapping) : ℕ := a.totals[m]?.getD 0

variable (a : Accumulator) (completedUs : ℕ) (delivery : DeliveryUsage UsageMapping)

theorem record_cases : (∃ gap, a.record completedUs delivery = a.markGap gap)
      ∨ ∃ m, a.startUs ≤ completedUs ∧ completedUs < a.endUs ∧ delivery.mapping = some m
        ∧ m.recordable = true ∧ (m ∈ a.totals ∧ a.total m + delivery.payloadBytes ≤ U64_MAX
          ∨ a.total m = 0 ∧ a.totals.size < MAX_MAPPINGS) ∧ a.record completedUs delivery
          = { a with totals := a.totals.insert m (a.total m + delivery.payloadBytes) } := by
  fun_cases record a completedUs delivery with
  | case4 hwithin m hmapping hrecordable bytes hbytes hfits =>
    rw [not_or, Nat.not_lt, Nat.not_le] at hwithin
    have htotal : a.total m = bytes := by rw [total, hbytes, getD_some]
    refine Or.inr ⟨m, hwithin.1, hwithin.2, hmapping, Bool.not_eq_false _ ▸ hrecordable, Or.inl ⟨?_, ?_⟩, ?_⟩
    · exact Std.TreeMap.mem_iff_isSome_getElem?.mpr (by rw [hbytes]; rfl)
    · rw [htotal]
      exact hfits
    · rw [htotal]
  | case6 hwithin m hmapping hrecordable hnone hsize =>
    rw [not_or, Nat.not_lt, Nat.not_le] at hwithin
    have htotal : a.total m = 0 := by rw [total, hnone, getD_none]
    refine Or.inr ⟨m, hwithin.1, hwithin.2, hmapping, Bool.not_eq_false _ ▸ hrecordable,
      Or.inr ⟨htotal, hsize⟩, ?_⟩
    rw [htotal, Nat.zero_add]
  | _ => exact Or.inl ⟨_, rfl⟩

theorem total_insert (m m' : UsageMapping) (bytes : ℕ) :
    total { a with totals := a.totals.insert m bytes } m' = if m = m' then bytes else a.total m' := by
  unfold total
  rw [Std.TreeMap.getElem?_insert]
  simp only [compare_eq_iff_eq]
  split <;> rfl

end Accumulator

end Karst.Relay
