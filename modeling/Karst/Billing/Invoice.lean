import Karst.Billing.Budget

/-!
# Invoices under a cap

The amounts of `Store.FinalizeInvoice`, and the relays of a month: they forward under uncapped leases
or on credits of the store, and report every byte.
-/

namespace Karst.Billing

open Option Function Except Store
open List hiding Vector

/-! ### Amounts -/

structure FinalInvoice where
  accountId : Bytes
  period : Period
  scheduleVersion : Bytes
  currency : Bytes
  deviceExact : ExactAmount
  relayExact : ExactAmount
  totalExact : ExactAmount
  deviceMinor : ℤ
  relayMinor : ℤ
  totalMinor : ℤ
  deriving DecidableEq

def parseExactNonnegative (amount : ExactAmount) : Except Error ℚ :=
  if amount.numerator < 0 then .error .invoiceAmount
  else if amount.denominator = 0 then .error .invoiceAmount
  else
    let exact : ℚ := amount.numerator / amount.denominator
    if exact.num ≠ amount.numerator ∨ exact.den ≠ amount.denominator then
      .error .invoiceNoncanonical
    else .ok exact

def I64_MAX : ℤ := 2 ^ 63 - 1

def truncateMinor (amount : ℚ) : Except Error ℤ :=
  if amount < 0 then .error .invoiceAmount
  else
    let minor := amount.num / amount.den
    if I64_MAX < minor then .error .invoiceLineTooLarge else .ok minor

def isUTCCalendarMonth (p : Period) : Bool := isRelayCapMonth p

def invoiceLines (estimate : Estimate) : Except Error (ExactAmount × ExactAmount × ExactAmount) :=
  match estimate.deviceExact, estimate.relayExact, estimate.totalExact with
  | some device, some relay, some total =>
    if estimate.usageComplete = false ∨ estimate.incomplete ≠ [] then .error .invoiceIncomplete
    else .ok (device, relay, total)
  | _, _, _ => .error .invoiceIncomplete

/-- The invoice that is stored, once, for an account and a month. -/
def finalizeInvoice (C : Catalog) (account : Bytes) (deviceReport : DeviceReport)
    (relayReport : RelayReport) : Except Error FinalInvoice := do
  let account ← billingAccount account
  let period ← billingPeriodMicros deviceReport.start deviceReport.finish
  if !isUTCCalendarMonth period then .error .invalidPeriod
  else
    let scope : Scope := ⟨account, deviceReport.start, deviceReport.finish⟩
    let assigned ← C.assignedSchedule scope
    let estimate ← calculate deviceReport relayReport assigned
    let lines ← invoiceLines estimate
    let row ← C.assignment scope
    if estimate.scheduleVersion ≠ row.scheduleVersion then .error .scheduleUnassigned
    else
      let schedule ← C.schedule row.scheduleVersion
      if estimate.currency ≠ schedule.currency then .error .invalidRateSchedule
      else
        let device ← parseExactNonnegative lines.1
        let relay ← parseExactNonnegative lines.2.1
        let total ← parseExactNonnegative lines.2.2
        if device + relay ≠ total then .error .invoiceTotal
        else
          let deviceMinor ← truncateMinor device
          let relayMinor ← truncateMinor relay
          if I64_MAX - relayMinor < deviceMinor then .error .invoiceTotalTooLarge
          else
            .ok {
              accountId := account
              period := period
              scheduleVersion := schedule.version
              currency := schedule.currency
              deviceExact := lines.1
              relayExact := lines.2.1
              totalExact := lines.2.2
              deviceMinor := deviceMinor
              relayMinor := relayMinor
              totalMinor := deviceMinor + relayMinor }

theorem invoiceLines_relay {estimate : Estimate} {lines : ExactAmount × ExactAmount × ExactAmount}
    (h : invoiceLines estimate = .ok lines) : estimate.relayExact = some lines.2.1 := by
  rw [invoiceLines] at h
  split at h
  · rename_i device relay total _ hrelay _
    obtain rfl := ok.inj (guard_eq_ok.mp h).2
    exact hrelay
  · cases h

theorem finalizeInvoice_relayExact {C : Catalog} {account : Bytes} {deviceReport : DeviceReport}
    {relayReport : RelayReport} {invoice : FinalInvoice}
    (h : finalizeInvoice C account deviceReport relayReport = .ok invoice) :
    ∃ row schedule bytes, C.assignments account (unixMicro deviceReport.start) = some row
      ∧ C.schedule row.scheduleVersion = .ok schedule ∧ relayReport.reportedBytes = decimal bytes
      ∧ invoice.relayExact = exactAmount (relayCharge bytes schedule) := by
  obtain ⟨account', haccount, h⟩ := bind_eq_ok.mp h
  obtain rfl := ok.inj (guard_eq_ok.mp haccount).2
  obtain ⟨period, hperiod, h⟩ := bind_eq_ok.mp h
  obtain rfl := ok.inj (guard_eq_ok.mp hperiod).2
  obtain ⟨-, h⟩ := guard_eq_ok.mp h
  obtain ⟨assigned, hassigned, h⟩ := bind_eq_ok.mp h
  obtain ⟨estimate, hestimate, h⟩ := bind_eq_ok.mp h
  obtain ⟨lines, hlines, h⟩ := bind_eq_ok.mp h
  obtain ⟨again, -, h⟩ := bind_eq_ok.mp h
  obtain ⟨-, h⟩ := guard_eq_ok.mp h
  obtain ⟨schedule, -, h⟩ := bind_eq_ok.mp h
  obtain ⟨-, h⟩ := guard_eq_ok.mp h
  obtain ⟨device, -, h⟩ := bind_eq_ok.mp h
  obtain ⟨relay, -, h⟩ := bind_eq_ok.mp h
  obtain ⟨total, -, h⟩ := bind_eq_ok.mp h
  obtain ⟨-, h⟩ := guard_eq_ok.mp h
  obtain ⟨deviceMinor, -, h⟩ := bind_eq_ok.mp h
  obtain ⟨relayMinor, -, h⟩ := bind_eq_ok.mp h
  obtain ⟨-, h⟩ := guard_eq_ok.mp h
  obtain rfl := ok.inj h
  obtain ⟨row, hrow, hloaded⟩ := bind_eq_ok.mp hassigned
  obtain ⟨-, period', hperiod', hfound, -⟩ := Catalog.assignment_eq_ok.mp hrow
  obtain rfl := ok.inj (hperiod'.symm.trans hperiod)
  obtain ⟨bytes, hbytes, hamount⟩ := calculate_relayExact hestimate (invoiceLines_relay hlines)
  exact ⟨row, assigned, bytes, hfound, hloaded, hbytes, hamount⟩

/-! ### Forwarding -/

/-- The store, with the bytes that were forwarded under the leases of each month and on each
grant. -/
structure System where
  store : Store
  uncapped : AccountMonth → ℕ
  carried : Bytes → ℕ

inductive Event where
  | call (call : Store.Call)
  | forwardUncapped (now : Time) (lease : LeaseKey) (bytes : ℕ)
  | forwardCredit (grantId : Bytes) (bytes : ℕ)

namespace System

def start : System := ⟨Store.empty, fun _ => 0, fun _ => 0⟩

def step (C : Catalog) (y : System) : Event → System
  | .call call => { y with store := y.store.step C call }
  | .forwardUncapped _ lease bytes =>
    { y with uncapped := Function.update y.uncapped lease.1 (y.uncapped lease.1 + bytes) }
  | .forwardCredit grantId bytes =>
    { y with carried := Function.update y.carried grantId (y.carried grantId + bytes) }

/-- A surrender reports at least what was forwarded on the grant. -/
def honest (y : System) : Store.Call → Bool
  | .surrender _ r => (parseCanonical r.consumedBytes).all fun n => y.carried r.grantId ≤ n
  | _ => true

/-- Relays forward under a lease that has not expired, or on a grant that is out and not spent. -/
def permitted (y : System) : Event → Bool
  | .call call => y.honest call
  | .forwardUncapped now lease _ => (y.store.leases.lookup lease).any fun t => unixMicro now < t
  | .forwardCredit grantId bytes =>
    (y.store.grants.find? fun g => g.grantId = grantId).any fun g =>
      g.state = .issued && y.carried grantId + bytes ≤ g.grantedBytes

def after (C : Catalog) (history : List Event) : System := Runs.run (step C) start history

def credited (y : System) (m : AccountMonth) : ℕ :=
  ((y.store.grantsOf m).map fun g => y.carried g.grantId).sum

def reported (y : System) (m : AccountMonth) : ℕ := y.uncapped m + y.credited m

/-! ### What is forwarded on credits -/

/-- No grant carries more than it takes from the budget, and only grants carry anything. -/
structure Carries (y : System) : Prop where
  within : ∀ g ∈ y.store.grants, y.carried g.grantId ≤ g.committedBytes
  known : ∀ id ∉ y.store.grants.map CreditGrant.grantId, y.carried id = 0

variable {y : System} {s : Store}

theorem Carries.of_grants (h : y.Carries) (hs : s.grants = y.store.grants) :
    Carries { y with store := s } := by
  refine ⟨fun g hg => h.within g (hs ▸ hg), fun id hid => h.known id ?_⟩
  rw [← hs]
  exact hid

theorem Carries.grant (h : y.Carries) {g : CreditGrant} (hcreated : y.store.createGrant g = .ok s) :
    Carries { y with store := s } := by
  obtain ⟨-, -, hgrants, hfresh, -⟩ := createGrant_eq_ok hcreated
  refine ⟨fun g' hg' => ?_, fun id hid => h.known id fun hmem => hid ?_⟩
  · rw [hgrants, mem_append, mem_singleton] at hg'
    rcases hg' with hg' | rfl
    · exact h.within g' hg'
    · rw [h.known g'.grantId hfresh]
      exact Nat.zero_le _
  · rw [hgrants, map_append]
    exact mem_append_left _ hmem

theorem Carries.surrender (h : y.Carries) {g : CreditGrant} {consumed : ℕ} (digest : Bytes)
    (hle : y.carried g.grantId ≤ consumed) :
    Carries { y with store := y.store.saveSurrender g.grantId consumed digest } := by
  constructor
  · intro g' hg'
    rcases mem_updateFirst hg' with hold | ⟨g₀, -, hid, rfl⟩
    · exact h.within g' hold
    · show y.carried g₀.grantId ≤ consumed
      rw [of_decide_eq_true hid]
      exact hle
  · intro id hid
    refine h.known id ?_
    have hsame : (y.store.saveSurrender g.grantId consumed digest).grants.map CreditGrant.grantId
        = y.store.grants.map CreditGrant.grantId :=
      map_updateFirst fun g => CreditGrant.surrender_grantId g consumed digest
    rw [← hsame]
    exact hid

theorem grants_settle {α : Type} {result : Except Error (α × Store)}
    (h : ∀ answer s', result = .ok (answer, s') → s'.grants = s.grants) :
    (s.settle result).grants = s.grants := by
  cases result with
  | error e => rfl
  | ok answer => exact h answer.1 answer.2 rfl

theorem carries_call (C : Catalog) (call : Store.Call) (hhonest : y.honest call = true)
    (h : y.Carries) : Carries { y with store := y.store.step C call } := by
  cases call with
  | setCap now scope overageMinor acknowledged actor =>
    refine h.of_grants (grants_settle fun cap s' hresult => ?_)
    obtain ⟨period, schedule, -, -, -, -, hcases⟩ := setRelaySpendingCap_eq_ok hresult
    rcases hcases with ⟨-, -, rfl⟩ | ⟨old, -, -, -, ⟨-, rfl⟩ | ⟨-, rfl, -⟩⟩ <;> rfl
  | reserve now scope request idBytes =>
    show Carries { y with store := y.store.settle (y.store.reserveRelayCredits C now scope request idBytes) }
    cases hresult : y.store.reserveRelayCredits C now scope request idBytes with
    | error e => exact h
    | ok answer =>
      obtain ⟨period, cap, -, -, -, -, ⟨-, hs⟩ | ⟨-, hnew⟩⟩ :=
        reserveRelayCredits_eq_ok hresult
      · exact h.of_grants (congrArg grants hs)
      · obtain ⟨row, schedule, budget, -, -, -, -, -, -, hcreated⟩ := reserveNew_eq_ok hnew
        exact h.grant hcreated
  | surrender account r =>
    show Carries { y with store := y.store.settle (y.store.surrenderRelayCredits account r) }
    cases hresult : y.store.surrenderRelayCredits account r with
    | error e => exact h
    | ok answer =>
      obtain ⟨found, consumed, hconsumed, hid, -, hmem, -, ⟨-, -, hs⟩ | ⟨-, -, hs⟩⟩ :=
        surrenderRelayCredits_eq_ok hresult
      · exact h.of_grants (congrArg grants hs)
      · have hle : y.carried found.grantId ≤ consumed := by
          rw [honest, parseCanonical_eq_some.mpr hconsumed, all_some, decide_eq_true_eq] at hhonest
          rw [hid]
          exact hhonest
        rw [show y.store.settle (.ok answer) = _ from hs]
        exact h.surrender r.digest hle
  | lease now scope request =>
    refine h.of_grants (grants_settle fun expiresAtUS s' hresult => ?_)
    obtain ⟨period, -, -, -, -, rfl⟩ := issueUncappedLease_eq_ok hresult
    rfl

theorem carries_step (C : Catalog) (y : System) (e : Event) (hpermitted : y.permitted e = true)
    (h : y.Carries) : (y.step C e).Carries := by
  cases e with
  | call call => exact carries_call C call hpermitted h
  | forwardUncapped now lease bytes => exact ⟨h.within, h.known⟩
  | forwardCredit grantId bytes =>
    obtain ⟨g, hfound, hfits⟩ := (any_eq_true _ _).mp hpermitted
    rw [Bool.and_eq_true, decide_eq_true_eq, decide_eq_true_eq] at hfits
    have hgid : g.grantId = grantId := by simpa using find?_some hfound
    have hmem := mem_of_find?_eq_some hfound
    constructor
    · intro g' hg'
      show update y.carried grantId (y.carried grantId + bytes) g'.grantId ≤ _
      by_cases hid : g'.grantId = grantId
      · -- the grant with this id is the one that was found
        have hsame := find?_of_nodup_map y.store.ids_nodup hg'
        rw [hid, hfound] at hsame
        obtain rfl := some.inj hsame
        rw [hid, update_self, CreditGrant.committedBytes, hfits.1]
        exact hfits.2
      · rw [update_of_ne hid]
        exact h.within g' hg'
    · intro id hid
      show update y.carried grantId (y.carried grantId + bytes) id = 0
      have hne : id ≠ grantId := by
        intro hsame
        refine hid ?_
        rw [hsame, ← hgid]
        exact mem_map_of_mem hmem
      rw [update_of_ne hne]
      exact h.known id hid

theorem sound_step (C : Catalog) (y : System) (e : Event) (h : y.store.Sound C) :
    (y.step C e).store.Sound C := by
  cases e with
  | call call => exact Store.sound_step C y.store call h
  | forwardUncapped => exact h
  | forwardCredit => exact h

theorem sound_after (C : Catalog) (history : List Event) : (after C history).store.Sound C :=
  Runs.run_induction (fun y e => sound_step C y e) (sound_empty C) history

theorem carries_after {C : Catalog} {history : List Event}
    (h : Runs.Along (step C) permitted start history = true) : (after C history).Carries := by
  refine Runs.along_induction (fun y e => carries_step C y e) ⟨?_, ?_⟩ h
  · intro g hg
    cases hg
  · intro id _
    rfl

theorem credited_le {C : Catalog} (hsound : y.store.Sound C) (hcarries : y.Carries)
    (m : AccountMonth) : y.credited m ≤ (y.store.ledger C m).budget :=
  (sum_le_sum fun g hg => hcarries.within g (mem_of_mem_filter hg)).trans (hsound.within m)

/-- **When the cap bounds the bill**: exactly when what was forwarded under leases fits in what the
credits left of the budget. -/
theorem bill_within_cap_iff (C : Catalog) (history : List Event)
    (hpermitted : Runs.Along (step C) permitted start history = true) (account : Bytes)
    (deviceReport : DeviceReport) (relayReport : RelayReport) (invoice : FinalInvoice) (cap : RelayCap)
    (hcap : (after C history).store.caps.lookup (account, unixMicro deviceReport.start) = some cap)
    (hreported : relayReport.reportedBytes
      = decimal ((after C history).reported (account, unixMicro deviceReport.start)))
    (hinvoice : finalizeInvoice C account deviceReport relayReport = .ok invoice) :
    ∃ schedule budget, Priced C (account, unixMicro deviceReport.start) cap schedule budget
      ∧ invoice.relayExact = exactAmount (relayCharge
        ((after C history).reported (account, unixMicro deviceReport.start)) schedule)
      ∧ (relayCharge ((after C history).reported (account, unixMicro deviceReport.start)) schedule
          ≤ cap.overageMinor ↔ (after C history).uncapped (account, unixMicro deviceReport.start)
          ≤ budget - (after C history).credited (account, unixMicro deviceReport.start)) := by
  have hsound := sound_after C history
  obtain ⟨schedule, budget, hpriced⟩ := hsound.priced _ cap hcap
  obtain ⟨row, schedule', bytes, hrow, hloaded, hbytes, hexact⟩ := finalizeInvoice_relayExact hinvoice
  -- the invoice and the cap use the schedule that is assigned to the month
  obtain ⟨row', hrow', -, hversion⟩ := hpriced.assigned
  obtain rfl := some.inj (hrow.symm.trans hrow')
  have hsame : schedule' = schedule := by
    rw [hversion, hpriced.loaded] at hloaded
    exact (ok.inj hloaded).symm
  have hall : bytes = (after C history).reported (account, unixMicro deviceReport.start) := by
    rw [hreported] at hbytes
    rw [← digitsValue_decimal bytes, ← hbytes, digitsValue_decimal]
  have hcredited := credited_le hsound (carries_after hpermitted) (account, unixMicro deviceReport.start)
  rw [ledger_of_cap hcap hpriced] at hcredited
  refine ⟨schedule, budget, hpriced, by rw [hexact, hall, hsame], ?_⟩
  rw [relayCharge_le_iff hpriced.buys, reported]
  omega

/-! ### A month of one account -/

def centPerByte : RateSchedule where
  version := ascii "v1"
  currency := ascii "USD"
  deviceTiers := [⟨0, 0⟩]
  relayIncludedBytes := 0
  relayUnitBytes := 1
  relayMinorPerUnit := 1

def JANUARY_END_US : ℤ := 2678400000000

def januaryCatalog : Catalog where
  assignments _ start := if start = 0 then some ⟨JANUARY_END_US, ascii "v1"⟩ else none
  schedules version := if version = ascii "v1" then some centPerByte else none

def january : Scope := ⟨ascii "a", 0, JANUARY_END_US * 1000⟩

def fiveByteRequest : Store.CreditRequest := ⟨ascii "r", ascii "g", ascii "m", ascii "q", 5⟩

def leaseThenCap (bytes : ℕ) (overageMinor : ℤ) : List Event :=
  [.call (.lease 0 january fiveByteRequest),
    .forwardUncapped 1000 ((ascii "a", 0), ascii "r", ascii "g", ascii "m") bytes,
    .call (.setCap 2000 january overageMinor true (ascii "o"))]

def januaryDevices : DeviceReport where
  start := 0
  finish := JANUARY_END_US * 1000
  asOf := JANUARY_END_US * 1000
  complete := true
  deviceMicroseconds := ascii "0"
  segments := [⟨0, JANUARY_END_US * 1000, .complete, some 0⟩]

def januaryRelays (reportedBytes : Bytes) : RelayReport where
  start := 0
  finish := JANUARY_END_US * 1000
  asOf := JANUARY_END_US * 1000
  coverage := ascii "authorized_producers"
  historyComplete := true
  complete := true
  expectedWindows := 1
  missingWindows := 0
  unexpectedWindows := 0
  reportedBytes := reportedBytes
  days := []

def fiveCents : FinalInvoice where
  accountId := ascii "a"
  period := ⟨0, JANUARY_END_US⟩
  scheduleVersion := ascii "v1"
  currency := ascii "USD"
  deviceExact := ⟨0, 1⟩
  relayExact := ⟨5, 1⟩
  totalExact := ⟨5, 1⟩
  deviceMinor := 0
  relayMinor := 5
  totalMinor := 5

/-- The cap of an account that set it two microseconds into the month; the lease expires first. -/
def januaryCap (overageMinor : ℤ) : RelayCap where
  periodEndUS := JANUARY_END_US
  scheduleVersion := ascii "v1"
  overageMinor := overageMinor
  revision := 1
  acknowledged := true
  effectiveAtUS := 15000000

theorem lease_then_cap_within :
    ∃ schedule budget, Priced januaryCatalog (ascii "a", 0) (januaryCap 7) schedule budget
      ∧ fiveCents.relayExact = exactAmount (relayCharge
        ((after januaryCatalog (leaseThenCap 5 7)).reported (ascii "a", 0)) schedule)
      ∧ (relayCharge ((after januaryCatalog (leaseThenCap 5 7)).reported (ascii "a", 0)) schedule
          ≤ (januaryCap 7).overageMinor ↔ (after januaryCatalog (leaseThenCap 5 7)).uncapped (ascii "a", 0)
          ≤ budget - (after januaryCatalog (leaseThenCap 5 7)).credited (ascii "a", 0)) :=
  bill_within_cap_iff januaryCatalog (leaseThenCap 5 7) (by decide +kernel) (ascii "a")
    januaryDevices (januaryRelays (ascii "5")) fiveCents (januaryCap 7) (by decide +kernel)
    (by decide +kernel) (by decide +kernel)

/-- **The cap does not bound the bill.**  Five bytes are forwarded under a lease, the cap is set to
nothing in the same month, and the invoice charges five cents. -/
theorem lease_then_cap_exceeds : Runs.Along (step januaryCatalog) permitted start (leaseThenCap 5 0) = true
      ∧ (after januaryCatalog (leaseThenCap 5 0)).store.caps.lookup (ascii "a", 0)
        = some (januaryCap 0)
      ∧ ascii "5" = decimal ((after januaryCatalog (leaseThenCap 5 0)).reported (ascii "a", 0))
      ∧ finalizeInvoice januaryCatalog (ascii "a") januaryDevices (januaryRelays (ascii "5"))
        = .ok fiveCents ∧ (januaryCap 0).overageMinor
        < relayCharge ((after januaryCatalog (leaseThenCap 5 0)).reported (ascii "a", 0))
          centPerByte := by
  decide +kernel

end System

end Karst.Billing
