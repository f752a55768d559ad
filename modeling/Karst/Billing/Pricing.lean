import Karst.Foundations.Fallible
import Karst.Foundations.Texts

/-!
# Pricing

The deterministic calculations of `billing/pricing.go`: what a rate schedule must look like, what
devices and relayed bytes cost under it, and how many bytes an amount of money buys.
-/

namespace Karst.Billing

inductive Error where
  | noBillingAccount
  | invalidPeriod
  | invalidRateSchedule
  | scheduleNotFound
  | scheduleInvalid
  | scheduleUnassigned
  | reportData
  | invoiceIncomplete
  | invoiceAmount
  | invoiceNoncanonical
  | invoiceTotal
  | invoiceLineTooLarge
  | invoiceTotalTooLarge
  | relayCapNotConfigured
  | relayCapConflict
  | relayCapDecrease
  | relayCapExhausted
  | relayCapPending
  | relayCapAlreadyActive
  | creditRequestConflict
  | creditGrantNotFound
  | creditGrantConflict
  | reserveFailed
  | recordNotFound
  deriving DecidableEq

/-! ### Time -/

abbrev Time := ℤ

def unixMicro (t : Time) : ℤ := t / 1000

def YEAR_10000 : Time := 253402300800000000000

def validBillingTime (t : Time) : Bool := 0 ≤ t && t < YEAR_10000 && t % 1000 == 0

structure Period where
  startUS : ℤ
  endUS : ℤ
  deriving DecidableEq

def billingPeriodMicros (start finish : Time) : Except Error Period :=
  if !validBillingTime start || !validBillingTime finish || !(start < finish) then
    .error .invalidPeriod
  else .ok ⟨unixMicro start, unixMicro finish⟩

structure Date where
  year : ℕ
  month : ℕ
  day : ℕ

/-- The date of a day counted from the epoch.  Years are counted from March, in eras of 400. -/
def civil (days : ℕ) : Date :=
  let shifted := days + 719468
  let dayOfEra := shifted % 146097
  let yearOfEra := (dayOfEra - dayOfEra / 1460 + dayOfEra / 36524 - dayOfEra / 146096) / 365
  let dayOfYear := dayOfEra - (365 * yearOfEra + yearOfEra / 4 - yearOfEra / 100)
  let shiftedMonth := (5 * dayOfYear + 2) / 153
  let day := dayOfYear - (153 * shiftedMonth + 2) / 5 + 1
  let month := if shiftedMonth < 10 then shiftedMonth + 3 else shiftedMonth - 9
  let year := yearOfEra + shifted / 146097 * 400
  ⟨if month ≤ 2 then year + 1 else year, month, day⟩

def daysIn (d : Date) : ℕ :=
  if d.month = 2 then
    if d.year % 4 = 0 ∧ (d.year % 100 ≠ 0 ∨ d.year % 400 = 0) then 29 else 28
  else if d.month = 4 ∨ d.month = 6 ∨ d.month = 9 ∨ d.month = 11 then 30
  else 31

def DAY_US : ℤ := 86400000000

def isRelayCapMonth (p : Period) : Bool :=
  let date := civil (p.startUS / DAY_US).toNat
  date.day == 1 && p.startUS % DAY_US == 0 && p.endUS == p.startUS + daysIn date * DAY_US

/-! ### Schedules -/

/-- An inclusive upper bound on the devices of a tier; zero is no bound. -/
structure DeviceTier where
  upToDevices : ℤ
  minorPerPeriod : ℤ

structure RateSchedule where
  version : Bytes
  currency : Bytes
  deviceTiers : List DeviceTier
  relayIncludedBytes : ℕ
  relayUnitBytes : ℕ
  relayMinorPerUnit : ℤ

def isUpper (b : UInt8) : Bool := 0x41 ≤ b && b ≤ 0x5A

def isTokenByte (b : UInt8) : Bool :=
  (0x61 ≤ b && b ≤ 0x7A) || isUpper b || isDigit b || b == 0x2D || b == 0x5F || b == 0x2E

def validToken (token : Bytes) : Bool :=
  token.length != 0 && token.length ≤ 128 && token.all isTokenByte

def validTiers : ℤ → List DeviceTier → Bool
  | _, [] => true
  | previous, tier :: tiers =>
    !(tier.minorPerPeriod < 0 || (tier.upToDevices != 0 && tier.upToDevices ≤ previous))
      && !(tier.upToDevices == 0 && !tiers.isEmpty) && validTiers tier.upToDevices tiers

def validateRateSchedule (schedule : RateSchedule) : Except Error Unit :=
  -- the currency equals its upper case when its letters pass the loop below
  if !validToken schedule.version || schedule.currency.length != 3 || schedule.relayUnitBytes == 0
      || schedule.relayMinorPerUnit < 0 || schedule.deviceTiers.isEmpty then
    .error .invalidRateSchedule
  else if !schedule.currency.all isUpper then .error .invalidRateSchedule
  else if !validTiers 0 schedule.deviceTiers then .error .invalidRateSchedule
  else if schedule.deviceTiers.getLast?.any fun tier => tier.upToDevices != 0 then
    .error .invalidRateSchedule
  else .ok ()

theorem validateRateSchedule_unit {schedule : RateSchedule}
    (h : validateRateSchedule schedule = .ok ()) : 0 < schedule.relayUnitBytes := by
  simp only [validateRateSchedule, guard_eq_ok, Bool.or_eq_true, beq_iff_eq, not_or] at h
  exact Nat.pos_of_ne_zero h.1.1.1.2

/-! ### Relayed bytes -/

/-- Overage is charged by the unit, included bytes are not: the subtraction stops at zero. -/
def relayCharge (bytes : ℕ) (schedule : RateSchedule) : ℚ :=
  ((bytes - schedule.relayIncludedBytes : ℕ) : ℚ) * schedule.relayMinorPerUnit / schedule.relayUnitBytes

def maxRelayBytesForOverage (schedule : RateSchedule) (overageMinor : ℤ) : Except Error ℕ :=
  if validateRateSchedule schedule ≠ .ok () ∨ overageMinor < 0 ∨ schedule.relayMinorPerUnit = 0 then
    .error .invalidRateSchedule
  else
    .ok (schedule.relayIncludedBytes
      + overageMinor.toNat * schedule.relayUnitBytes / schedule.relayMinorPerUnit.toNat)

section

variable {schedule : RateSchedule} {overageMinor : ℤ} {budget : ℕ}

theorem maxRelayBytesForOverage_eq_ok : maxRelayBytesForOverage schedule overageMinor = .ok budget
      ↔ validateRateSchedule schedule = .ok () ∧ 0 ≤ overageMinor ∧ schedule.relayMinorPerUnit ≠ 0
        ∧ budget = schedule.relayIncludedBytes
          + overageMinor.toNat * schedule.relayUnitBytes / schedule.relayMinorPerUnit.toNat := by
  rw [maxRelayBytesForOverage, guard_eq_ok, not_or, not_or, not_not, not_lt, Except.ok.injEq,
    eq_comm (b := budget), and_assoc, and_assoc]

variable (h : maxRelayBytesForOverage schedule overageMinor = .ok budget)
include h

theorem price_pos : 0 < schedule.relayUnitBytes ∧ 0 < schedule.relayMinorPerUnit ∧ 0 ≤ overageMinor := by
  obtain ⟨hvalid, hoverage, hprice, -⟩ := maxRelayBytesForOverage_eq_ok.mp h
  refine ⟨validateRateSchedule_unit hvalid, ?_, hoverage⟩
  simp only [validateRateSchedule, guard_eq_ok, Bool.or_eq_true, decide_eq_true_eq, not_or, not_lt] at hvalid
  exact lt_of_le_of_ne hvalid.1.1.2 hprice.symm

/-- **The byte budget is exact.**  What fits in it costs at most the amount, and every byte more
costs more. -/
theorem relayCharge_le_iff (bytes : ℕ) : relayCharge bytes schedule ≤ overageMinor ↔ bytes ≤ budget := by
  obtain ⟨hunit, hprice, hoverage⟩ := price_pos h
  obtain ⟨-, -, -, hbudget⟩ := maxRelayBytesForOverage_eq_ok.mp h
  obtain ⟨price, hprice'⟩ := Int.eq_ofNat_of_zero_le hprice.le
  obtain ⟨overage, rfl⟩ := Int.eq_ofNat_of_zero_le hoverage
  rw [hprice'] at hprice hbudget
  rw [Int.toNat_natCast, Int.toNat_natCast] at hbudget
  have hcleared : relayCharge bytes schedule ≤ ((overage : ℤ) : ℚ)
      ↔ (bytes - schedule.relayIncludedBytes) * price ≤ overage * schedule.relayUnitBytes := by
    rw [relayCharge, hprice', div_le_iff₀ (by exact_mod_cast hunit)]
    norm_cast
  rw [hcleared, ← Nat.le_div_iff_mul_le (by exact_mod_cast hprice), hbudget,
    Nat.sub_le_iff_le_add']

theorem maxRelayBytesForOverage_mono {overageMinor' : ℤ} {budget' : ℕ}
    (h' : maxRelayBytesForOverage schedule overageMinor' = .ok budget')
    (hle : overageMinor ≤ overageMinor') : budget ≤ budget' := by
  rw [← relayCharge_le_iff h']
  exact ((relayCharge_le_iff h budget).mpr le_rfl).trans (by exact_mod_cast hle)

end

/-! ### Devices -/

inductive Coverage where
  | uncollected
  | incomplete
  | complete
  deriving DecidableEq

structure DeviceSegment where
  start : Time
  finish : Time
  coverage : Coverage
  devices : Option ℤ

structure DeviceReport where
  start : Time
  finish : Time
  asOf : Time
  complete : Bool
  deviceMicroseconds : Bytes
  segments : List DeviceSegment

/-- The loop over the segments: they follow on one another, to the end of the period. -/
def validSegments (endUS : ℤ) : ℤ → List DeviceSegment → Bool
  | cursor, [] => cursor == endUS
  | cursor, segment :: segments =>
    validBillingTime segment.start && validBillingTime segment.finish
      && segment.coverage == .complete && segment.devices.any (0 ≤ ·)
      && unixMicro segment.start == cursor && unixMicro segment.start < unixMicro segment.finish
      && unixMicro segment.finish ≤ endUS && validSegments endUS (unixMicro segment.finish) segments

def validDeviceReport (report : DeviceReport) : Bool :=
  report.complete && validBillingTime report.start && validBillingTime report.finish
    && validBillingTime report.asOf && report.start < report.finish && report.finish ≤ report.asOf
    && !report.segments.isEmpty
    && validSegments (unixMicro report.finish) (unixMicro report.start) report.segments

/-- The loop over the tiers, with the devices that are left and the bound of the tier before. -/
def addDeviceCost (durationUS : ℤ) : ℤ → ℤ → ℤ → List DeviceTier → Except Error ℤ
  | total, remaining, _, [] => if remaining ≠ 0 then .error .invalidRateSchedule else .ok total
  | total, remaining, previousUpper, tier :: tiers =>
    let capacity :=
      if tier.upToDevices ≠ 0 then min remaining (tier.upToDevices - previousUpper) else remaining
    if capacity < 0 then .error .invalidRateSchedule
    else
      let total := total + capacity * tier.minorPerPeriod * durationUS
      if remaining - capacity = 0 then .ok total
      else addDeviceCost durationUS total (remaining - capacity) tier.upToDevices tiers

def addSegmentCosts (tiers : List DeviceTier) : ℤ → List DeviceSegment → Except Error ℤ
  | total, [] => .ok total
  | total, segment :: segments => do
    let total ← addDeviceCost (unixMicro segment.finish - unixMicro segment.start) total
      (segment.devices.getD 0) 0 tiers
    addSegmentCosts tiers total segments

def deviceCharge (report : DeviceReport) (tiers : List DeviceTier) : Except Error ℚ :=
  let periodUS := unixMicro report.finish - unixMicro report.start
  if periodUS ≤ 0 then .error .invalidRateSchedule
  else (addSegmentCosts tiers 0 report.segments).map fun numerator => (numerator : ℚ) / periodUS

/-! ### Estimates -/

structure ReportDay where
  gapWindows : ℕ
  missingWindows : ℕ
  unexpectedWindows : ℕ

structure RelayReport where
  start : Time
  finish : Time
  asOf : Time
  coverage : Bytes
  historyComplete : Bool
  complete : Bool
  expectedWindows : ℕ
  missingWindows : ℕ
  unexpectedWindows : ℕ
  reportedBytes : Bytes
  days : List ReportDay

def validRelayReport (report : RelayReport) (start finish : Time) : Bool :=
  report.complete && report.historyComplete && report.coverage == ascii "authorized_producers"
    && report.expectedWindows != 0 && report.missingWindows == 0 && report.unexpectedWindows == 0
    && validBillingTime report.start && validBillingTime report.finish
    && validBillingTime report.asOf && report.start == start && report.finish == finish
    && report.start < report.finish && report.finish ≤ report.asOf && report.days.all fun day =>
      day.gapWindows == 0 && day.missingWindows == 0 && day.unexpectedWindows == 0

/-- A rational in lowest terms, by its numerator and its positive denominator. -/
structure ExactAmount where
  numerator : ℤ
  denominator : ℕ
  deriving DecidableEq

def exactAmount (amount : ℚ) : ExactAmount := ⟨amount.num, amount.den⟩

structure Estimate where
  scheduleVersion : Bytes
  currency : Bytes
  deviceExact : Option ExactAmount
  relayExact : Option ExactAmount
  totalExact : Option ExactAmount
  usageComplete : Bool
  incomplete : List Bytes

def deviceAmount (report : DeviceReport) (schedule : RateSchedule) : Except Error (Option ℚ) :=
  if validDeviceReport report then (deviceCharge report schedule.deviceTiers).map some
  else .ok none

/-- The relay line, if the report may be charged for the period. -/
def relayAmount (report : RelayReport) (start finish : Time) (schedule : RateSchedule) :
    Except Error (Option ℚ) :=
  if validRelayReport report start finish then
    (okOr .reportData (parseCanonical report.reportedBytes)).map fun bytes =>
      some (relayCharge bytes schedule)
  else .ok none

def calculate (deviceReport : DeviceReport) (relayReport : RelayReport) (schedule : RateSchedule) :
    Except Error Estimate := do
  validateRateSchedule schedule
  let device ← deviceAmount deviceReport schedule
  let relay ← relayAmount relayReport deviceReport.start deviceReport.finish schedule
  return {
    scheduleVersion := schedule.version
    currency := schedule.currency
    deviceExact := device.map exactAmount
    relayExact := relay.map exactAmount
    totalExact := device.bind fun d => relay.map fun r => exactAmount (d + r)
    usageComplete := device.isSome && relay.isSome
    incomplete := (if device.isSome then [] else [ascii "device_usage"])
      ++ if relay.isSome then [] else [ascii "relay_usage"] }

theorem calculate_relayExact {deviceReport : DeviceReport} {relayReport : RelayReport}
    {schedule : RateSchedule} {estimate : Estimate} {amount : ExactAmount}
    (h : calculate deviceReport relayReport schedule = .ok estimate)
    (hamount : estimate.relayExact = some amount) : ∃ bytes, relayReport.reportedBytes = decimal bytes
      ∧ amount = exactAmount (relayCharge bytes schedule) := by
  obtain ⟨-, -, h⟩ := bind_eq_ok.mp h
  obtain ⟨device, -, h⟩ := bind_eq_ok.mp h
  obtain ⟨relay, hrelay, h⟩ := bind_eq_ok.mp h
  obtain rfl := Except.ok.inj h
  obtain ⟨charge, rfl, rfl⟩ := Option.map_eq_some_iff.mp hamount
  rw [relayAmount] at hrelay
  split at hrelay
  · obtain ⟨bytes, hbytes, hcharge⟩ := map_eq_ok.mp hrelay
    rw [Option.some.injEq] at hcharge
    exact ⟨bytes, parseCanonical_eq_some.mp (okOr_eq_ok.mp hbytes), by rw [hcharge]⟩
  · cases hrelay

end Karst.Billing
