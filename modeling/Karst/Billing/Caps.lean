import Karst.Foundations.Collections
import Karst.Billing.Pricing

/-!
# Relay spending caps

The store of `billing/caps.go`: caps, credit grants and uncapped leases, with the schedules that are
assigned to accounts.  Every call is one serialisable transaction and changes nothing when it fails;
the clock reading and the random grant id of a call are given with it.
-/

namespace Karst.Billing

open Except
open List hiding Vector

/-! ### Assigned schedules -/

structure RateAssignment where
  periodEndUS : ℤ
  scheduleVersion : Bytes

/-- The assignments, by account and start of the period, and the schedule snapshots. -/
structure Catalog where
  assignments : Bytes → ℤ → Option RateAssignment
  schedules : Bytes → Option RateSchedule

structure Scope where
  account : Bytes
  start : Time
  finish : Time

def billingAccount (account : Bytes) : Except Error Bytes :=
  if account = [] then .error .noBillingAccount else .ok account

namespace Catalog

def schedule (C : Catalog) (version : Bytes) : Except Error RateSchedule := do
  let schedule ← okOr .scheduleNotFound (C.schedules version)
  if schedule.version ≠ version ∨ validateRateSchedule schedule ≠ .ok () then
    .error .scheduleInvalid
  else .ok schedule

def assignment (C : Catalog) (scope : Scope) : Except Error RateAssignment := do
  let account ← billingAccount scope.account
  let period ← billingPeriodMicros scope.start scope.finish
  let row ← okOr .scheduleUnassigned (C.assignments account period.startUS)
  if row.periodEndUS ≠ period.endUS then .error .scheduleUnassigned else .ok row

def assignedSchedule (C : Catalog) (scope : Scope) : Except Error RateSchedule := do
  let row ← C.assignment scope
  C.schedule row.scheduleVersion

theorem schedule_eq_ok {C : Catalog} {version : Bytes} {schedule : RateSchedule} :
    C.schedule version = .ok schedule ↔ C.schedules version = some schedule ∧ schedule.version = version
        ∧ validateRateSchedule schedule = .ok () := by
  rw [Catalog.schedule, bind_eq_ok]
  simp only [okOr_eq_ok, guard_eq_ok, not_or, not_not, ok.injEq]
  constructor
  · rintro ⟨found, hfound, ⟨hversion, hvalid⟩, rfl⟩
    exact ⟨hfound, hversion, hvalid⟩
  · rintro ⟨hfound, hversion, hvalid⟩
    exact ⟨schedule, hfound, ⟨hversion, hvalid⟩, rfl⟩

theorem assignment_eq_ok {C : Catalog} {scope : Scope} {row : RateAssignment} : C.assignment scope = .ok row
      ↔ scope.account ≠ [] ∧ ∃ period, billingPeriodMicros scope.start scope.finish = .ok period
        ∧ C.assignments scope.account period.startUS = some row ∧ row.periodEndUS = period.endUS := by
  simp only [assignment, billingAccount, bind_eq_ok, okOr_eq_ok, guard_eq_ok, not_not, ok.injEq]
  constructor
  · rintro ⟨account, ⟨haccount, rfl⟩, period, hperiod, found, hfound, hend, rfl⟩
    exact ⟨haccount, period, hperiod, hfound, hend⟩
  · rintro ⟨haccount, period, hperiod, hfound, hend⟩
    exact ⟨_, ⟨haccount, rfl⟩, period, hperiod, row, hfound, hend, rfl⟩

end Catalog

/-! ### Tables -/

abbrev AccountMonth := Bytes × ℤ

structure RelayCap where
  periodEndUS : ℤ
  scheduleVersion : Bytes
  overageMinor : ℤ
  revision : ℕ
  acknowledged : Bool
  effectiveAtUS : ℤ
  deriving DecidableEq

def RelayCap.revise (cap : RelayCap) (overageMinor : ℤ) : RelayCap :=
  { cap with overageMinor := overageMinor, revision := (cap.revision + 1) % 2 ^ 64 }

inductive GrantState where
  | issued
  | surrendered
  deriving DecidableEq

/-- A grant.  Amounts of bytes are kept as canonical decimals; here they are the numbers. -/
structure CreditGrant where
  grantId : Bytes
  accountId : Bytes
  periodStartUS : ℤ
  relayId : Bytes
  generation : Bytes
  requestId : Bytes
  mappingVersion : Bytes
  scheduleVersion : Bytes
  capRevision : ℕ
  requestedBytes : ℕ
  grantedBytes : ℕ
  consumedBytes : ℕ
  state : GrantState
  surrenderDigest : Bytes

namespace CreditGrant

def month (g : CreditGrant) : AccountMonth := (g.accountId, g.periodStartUS)

/-- What makes a request the same request: the unique index of the table. -/
def requestKey (g : CreditGrant) : AccountMonth × Bytes × Bytes × Bytes :=
  (g.month, g.relayId, g.generation, g.requestId)

def committedBytes (g : CreditGrant) : ℕ :=
  match g.state with
  | .issued => g.grantedBytes
  | .surrendered => g.consumedBytes

def surrender (g : CreditGrant) (consumed : ℕ) (digest : Bytes) : CreditGrant :=
  { g with state := .surrendered, consumedBytes := consumed, surrenderDigest := digest }

variable (g : CreditGrant) (consumed : ℕ) (digest : Bytes)

@[simp] theorem surrender_grantId : (g.surrender consumed digest).grantId = g.grantId := rfl

@[simp] theorem surrender_month : (g.surrender consumed digest).month = g.month := rfl

@[simp] theorem surrender_requestKey : (g.surrender consumed digest).requestKey = g.requestKey := rfl

end CreditGrant

/-- What makes a lease: account, month, relay, generation and mapping version. -/
abbrev LeaseKey := AccountMonth × Bytes × Bytes × Bytes

/-- The tables of the store.  Grants are unique by id and by request. -/
structure Store where
  caps : AList fun _ : AccountMonth => RelayCap
  grants : List CreditGrant
  leases : AList fun _ : LeaseKey => ℤ
  ids_nodup : (grants.map CreditGrant.grantId).Nodup
  requests_nodup : (grants.map CreditGrant.requestKey).Nodup

namespace Store

def empty : Store := ⟨∅, [], ∅, List.nodup_nil, List.nodup_nil⟩

def grantsOf (s : Store) (m : AccountMonth) : List CreditGrant :=
  s.grants.filter fun g => g.month = m

def committed (s : Store) (m : AccountMonth) : ℕ :=
  ((s.grantsOf m).map CreditGrant.committedBytes).sum

def putCap (s : Store) (m : AccountMonth) (cap : RelayCap) : Store :=
  { s with caps := s.caps.insert m cap }

def createGrant (s : Store) (g : CreditGrant) : Except Error Store :=
  if h : g.grantId ∈ s.grants.map CreditGrant.grantId
      ∨ g.requestKey ∈ s.grants.map CreditGrant.requestKey then
    .error .reserveFailed
  else
    .ok { s with
      grants := s.grants ++ [g]
      ids_nodup := by
        rw [List.map_append]
        exact nodup_concat s.ids_nodup (not_or.mp h).1
      requests_nodup := by
        rw [List.map_append]
        exact nodup_concat s.requests_nodup (not_or.mp h).2 }

def saveSurrender (s : Store) (grantId : Bytes) (consumed : ℕ) (digest : Bytes) : Store :=
  { s with
    grants := updateFirst (fun g => g.grantId = grantId) (fun g => g.surrender consumed digest) s.grants
    ids_nodup := by
      rw [map_updateFirst fun g => CreditGrant.surrender_grantId g consumed digest]
      exact s.ids_nodup
    requests_nodup := by
      rw [map_updateFirst fun g => CreditGrant.surrender_requestKey g consumed digest]
      exact s.requests_nodup }

def putLease (s : Store) (key : LeaseKey) (expiresAtUS : ℤ) : Store :=
  { s with leases := s.leases.insert key expiresAtUS }

def latestLease (s : Store) (m : AccountMonth) : Option ℤ :=
  ((s.leases.entries.filter fun e => e.1.1 = m).map fun e => e.2).max?

/-! ### Calls -/

/-- The checks that all calls about a month begin with. -/
def capMonth (scope : Scope) : Except Error Period := do
  let _ ← billingAccount scope.account
  let period ← billingPeriodMicros scope.start scope.finish
  if !isRelayCapMonth period then .error .invalidPeriod else .ok period

/-- A cap for a month that has none waits for every lease of the month to expire. -/
def newCap (s : Store) (now : Time) (m : AccountMonth) (periodEndUS : ℤ) (version : Bytes)
    (overageMinor : ℤ) : RelayCap where
  periodEndUS := periodEndUS
  scheduleVersion := version
  overageMinor := overageMinor
  revision := 1
  acknowledged := true
  effectiveAtUS := (s.latestLease m).elim (unixMicro now) (max (unixMicro now))

/-- Whether a cap may be lowered to a budget: no grant is out, and what was consumed fits. -/
def mayDecrease (s : Store) (m : AccountMonth) (budget : ℕ) : Bool :=
  (s.grantsOf m).all (fun g => g.state = .surrendered)
    && ((s.grantsOf m).map CreditGrant.consumedBytes).sum ≤ budget

def setRelaySpendingCap (C : Catalog) (s : Store) (now : Time) (scope : Scope) (overageMinor : ℤ)
    (acknowledged : Bool) (actor : Bytes) : Except Error (RelayCap × Store) := do
  let period ← capMonth scope
  if overageMinor < 0 ∨ acknowledged = false ∨ validToken actor = false then
    .error .invalidPeriod
  else
    let schedule ← C.assignedSchedule scope
    if schedule.currency ≠ ascii "USD" ∨ schedule.relayMinorPerUnit ≤ 0 then
      .error .invalidRateSchedule
    else
      let m := (scope.account, period.startUS)
      match s.caps.lookup m with
      | none =>
        let cap := s.newCap now m period.endUS schedule.version overageMinor
        .ok (cap, s.putCap m cap)
      | some cap =>
        if cap.periodEndUS ≠ period.endUS ∨ cap.scheduleVersion ≠ schedule.version
            ∨ cap.acknowledged = false then
          .error .relayCapConflict
        else if overageMinor < cap.overageMinor then do
          let budget ← maxRelayBytesForOverage schedule overageMinor
          if s.mayDecrease m budget = false then .error .relayCapDecrease
          else .ok (cap.revise overageMinor, s.putCap m (cap.revise overageMinor))
        else if overageMinor = cap.overageMinor then .ok (cap, s)
        else .ok (cap.revise overageMinor, s.putCap m (cap.revise overageMinor))

structure CreditRequest where
  relayId : Bytes
  generation : Bytes
  mappingVersion : Bytes
  requestId : Bytes
  requestedBytes : ℕ

def CreditRequest.valid (r : CreditRequest) : Bool :=
  validToken r.relayId && validToken r.generation && validToken r.mappingVersion
    && validToken r.requestId && r.requestedBytes != 0

def CreditRequest.key (r : CreditRequest) (m : AccountMonth) :
    AccountMonth × Bytes × Bytes × Bytes :=
  (m, r.relayId, r.generation, r.requestId)

def newGrant (r : CreditRequest) (m : AccountMonth) (cap : RelayCap) (available : ℕ)
    (idBytes : Vector UInt8 16) : CreditGrant where
  grantId := encodeHex idBytes.toList
  accountId := m.1
  periodStartUS := m.2
  relayId := r.relayId
  generation := r.generation
  requestId := r.requestId
  mappingVersion := r.mappingVersion
  scheduleVersion := cap.scheduleVersion
  capRevision := cap.revision
  requestedBytes := r.requestedBytes
  grantedBytes := min r.requestedBytes available
  consumedBytes := 0
  state := .issued
  surrenderDigest := []

def reserveNew (C : Catalog) (s : Store) (scope : Scope) (m : AccountMonth) (cap : RelayCap)
    (r : CreditRequest) (idBytes : Vector UInt8 16) : Except Error (CreditGrant × Store) := do
  match C.assignment scope with
  | .error _ => .error .scheduleUnassigned
  | .ok row =>
    if row.scheduleVersion ≠ cap.scheduleVersion then .error .scheduleUnassigned
    else
      let schedule ← C.schedule cap.scheduleVersion
      let budget ← maxRelayBytesForOverage schedule cap.overageMinor
      let available := budget - s.committed m
      if available = 0 then .error .relayCapExhausted
      else
        let grant := newGrant r m cap available idBytes
        let s ← s.createGrant grant
        .ok (grant, s)

def reserveRelayCredits (C : Catalog) (s : Store) (now : Time) (scope : Scope) (r : CreditRequest)
    (idBytes : Vector UInt8 16) : Except Error (CreditGrant × Store) := do
  let period ← capMonth scope
  if r.valid = false then .error .invalidPeriod
  else
    let m := (scope.account, period.startUS)
    let cap ← okOr .relayCapNotConfigured (s.caps.lookup m)
    if cap.periodEndUS ≠ period.endUS ∨ cap.acknowledged = false then .error .relayCapConflict
    else if unixMicro now < cap.effectiveAtUS then .error .relayCapPending
    else
      match s.grants.find? fun g => g.requestKey = r.key m with
      | some existing =>
        if existing.mappingVersion ≠ r.mappingVersion ∨ existing.requestedBytes ≠ r.requestedBytes
            ∨ existing.scheduleVersion ≠ cap.scheduleVersion then
          .error .creditRequestConflict
        else .ok (existing, s)
      | none => s.reserveNew C scope m cap r idBytes

/-- A lease for fifteen seconds, while the month has no cap. -/
def RELAY_UNCAPPED_LEASE_US : ℤ := 15000000

/-- The account is the one that owns the mapping of the request, which was authorised. -/
def issueUncappedLease (s : Store) (now : Time) (scope : Scope) (r : CreditRequest) :
    Except Error (ℤ × Store) := do
  let period ← billingPeriodMicros scope.start scope.finish
  if !isRelayCapMonth period then .error .invalidPeriod
  else
    let m := (scope.account, period.startUS)
    match s.caps.lookup m with
    | some cap =>
      if unixMicro now < cap.effectiveAtUS then .error .relayCapPending
      else .error .relayCapAlreadyActive
    | none =>
      let expiresAtUS := unixMicro now + RELAY_UNCAPPED_LEASE_US
      .ok (expiresAtUS, s.putLease (m, r.relayId, r.generation, r.mappingVersion) expiresAtUS)

def validLowerHex (value : Bytes) (bytes : ℕ) : Bool :=
  (decodeHex value).any fun decoded => decoded.length == bytes && encodeHex decoded == value

structure CreditSurrender where
  grantId : Bytes
  relayId : Bytes
  generation : Bytes
  mappingVersion : Bytes
  consumedBytes : Bytes
  digest : Bytes

def CreditSurrender.valid (r : CreditSurrender) : Bool :=
  validLowerHex r.grantId 16 && validToken r.relayId && validToken r.generation
    && validToken r.mappingVersion && validLowerHex r.digest 32

def surrenderRelayCredits (s : Store) (account : Bytes) (r : CreditSurrender) :
    Except Error (CreditGrant × Store) := do
  let account ← billingAccount account
  if r.valid = false then .error .creditGrantConflict
  else
    let consumed ← okOr .creditGrantConflict (parseCanonical r.consumedBytes)
    let grant ← okOr .creditGrantNotFound
      (s.grants.find? fun g => g.grantId = r.grantId ∧ g.accountId = account)
    if grant.relayId ≠ r.relayId ∨ grant.generation ≠ r.generation
        ∨ grant.mappingVersion ≠ r.mappingVersion then
      .error .creditGrantNotFound
    else if grant.grantedBytes < consumed then .error .creditGrantConflict
    else
      match grant.state with
      | .surrendered =>
        if grant.consumedBytes ≠ consumed ∨ grant.surrenderDigest ≠ r.digest then
          .error .creditGrantConflict
        else
          let _ ← okOr .recordNotFound (s.caps.lookup grant.month)
          .ok (grant, s)
      | .issued =>
        let _ ← okOr .recordNotFound (s.caps.lookup grant.month)
        .ok (grant.surrender consumed r.digest, s.saveSurrender grant.grantId consumed r.digest)

inductive Call where
  | setCap (now : Time) (scope : Scope) (overageMinor : ℤ) (acknowledged : Bool) (actor : Bytes)
  | reserve (now : Time) (scope : Scope) (request : CreditRequest) (idBytes : Vector UInt8 16)
  | surrender (account : Bytes) (request : CreditSurrender)
  | lease (now : Time) (scope : Scope) (request : CreditRequest)

def settle {α : Type} (s : Store) (result : Except Error (α × Store)) : Store :=
  match result with
  | .ok (_, s') => s'
  | .error _ => s

def step (C : Catalog) (s : Store) : Call → Store
  | .setCap now scope overageMinor acknowledged actor =>
    s.settle (s.setRelaySpendingCap C now scope overageMinor acknowledged actor)
  | .reserve now scope request idBytes =>
    s.settle (s.reserveRelayCredits C now scope request idBytes)
  | .surrender account request => s.settle (s.surrenderRelayCredits account request)
  | .lease now scope request => s.settle (s.issueUncappedLease now scope request)

/-! ### What a call can do -/

variable {scope : Scope}

theorem capMonth_eq_ok {period : Period} : capMonth scope = .ok period
      ↔ scope.account ≠ [] ∧ billingPeriodMicros scope.start scope.finish = .ok period
        ∧ isRelayCapMonth period = true := by
  simp only [capMonth, billingAccount, bind_eq_ok, guard_eq_ok, ok.injEq]
  constructor
  · rintro ⟨account, ⟨haccount, -⟩, found, hfound, hmonth, rfl⟩
    exact ⟨haccount, hfound, by simpa using hmonth⟩
  · rintro ⟨haccount, hfound, hmonth⟩
    exact ⟨_, ⟨haccount, rfl⟩, period, hfound, by simpa using hmonth, rfl⟩

variable {C : Catalog} {s s' : Store} {now : Time}

theorem setRelaySpendingCap_eq_ok {overageMinor : ℤ} {acknowledged : Bool} {actor : Bytes} {cap : RelayCap}
    (h : s.setRelaySpendingCap C now scope overageMinor acknowledged actor = .ok (cap, s')) :
    ∃ period schedule, capMonth scope = .ok period ∧ 0 ≤ overageMinor
      ∧ C.assignedSchedule scope = .ok schedule ∧ 0 < schedule.relayMinorPerUnit
      ∧ ((s.caps.lookup (scope.account, period.startUS) = none
          ∧ cap = s.newCap now (scope.account, period.startUS) period.endUS schedule.version overageMinor
          ∧ s' = s.putCap (scope.account, period.startUS) cap)
        ∨ ∃ old, s.caps.lookup (scope.account, period.startUS) = some old
          ∧ old.periodEndUS = period.endUS ∧ old.scheduleVersion = schedule.version ∧ (cap = old ∧ s' = s
            ∨ cap = old.revise overageMinor ∧ s' = s.putCap (scope.account, period.startUS) cap
              ∧ (old.overageMinor < overageMinor
                ∨ ∃ budget, maxRelayBytesForOverage schedule overageMinor = .ok budget
                  ∧ s.mayDecrease (scope.account, period.startUS) budget = true))) := by
  obtain ⟨period, hperiod, h⟩ := bind_eq_ok.mp h
  obtain ⟨hinput, h⟩ := guard_eq_ok.mp h
  obtain ⟨schedule, hschedule, h⟩ := bind_eq_ok.mp h
  obtain ⟨hprice, h⟩ := guard_eq_ok.mp h
  rw [not_or, not_lt] at hinput
  rw [not_or, not_le] at hprice
  refine ⟨period, schedule, hperiod, hinput.1, hschedule, hprice.2, ?_⟩
  cases hlookup : s.caps.lookup (scope.account, period.startUS) with
  | none =>
    simp only [hlookup, ok.injEq, Prod.mk.injEq] at h
    exact .inl ⟨rfl, h.1.symm, h.1 ▸ h.2.symm⟩
  | some old =>
    simp only [hlookup] at h
    obtain ⟨hconflict, h⟩ := guard_eq_ok.mp h
    rw [not_or, not_or, not_not, not_not] at hconflict
    refine .inr ⟨old, rfl, hconflict.1, hconflict.2.1, ?_⟩
    split at h
    · obtain ⟨budget, hbudget, h⟩ := bind_eq_ok.mp h
      obtain ⟨hmay, h⟩ := guard_eq_ok.mp h
      obtain ⟨rfl, rfl⟩ := Prod.mk.inj (ok.inj h)
      exact .inr ⟨rfl, rfl, .inr ⟨budget, hbudget, by simpa using hmay⟩⟩
    · rename_i hnot
      split at h
      · obtain ⟨rfl, rfl⟩ := Prod.mk.inj (ok.inj h)
        exact .inl ⟨rfl, rfl⟩
      · rename_i hne
        obtain ⟨rfl, rfl⟩ := Prod.mk.inj (ok.inj h)
        exact .inr ⟨rfl, rfl, .inl (lt_of_le_of_ne (not_lt.mp hnot) (Ne.symm hne))⟩

variable {r : CreditRequest} {g : CreditGrant}

theorem reserveNew_eq_ok {m : AccountMonth} {cap : RelayCap} {idBytes : Vector UInt8 16}
    (h : s.reserveNew C scope m cap r idBytes = .ok (g, s')) :
    ∃ row schedule budget, C.assignment scope = .ok row
      ∧ row.scheduleVersion = cap.scheduleVersion ∧ C.schedule cap.scheduleVersion = .ok schedule
      ∧ maxRelayBytesForOverage schedule cap.overageMinor = .ok budget
      ∧ s.committed m < budget ∧ g = newGrant r m cap (budget - s.committed m) idBytes
      ∧ s.createGrant g = .ok s' := by
  rw [reserveNew] at h
  split at h
  · cases h
  · rename_i row hrow
    obtain ⟨hversion, h⟩ := guard_eq_ok.mp h
    obtain ⟨schedule, hschedule, h⟩ := bind_eq_ok.mp h
    obtain ⟨budget, hbudget, h⟩ := bind_eq_ok.mp h
    obtain ⟨havailable, h⟩ := guard_eq_ok.mp h
    obtain ⟨s₁, hcreate, h⟩ := bind_eq_ok.mp h
    obtain ⟨rfl, rfl⟩ := Prod.mk.inj (ok.inj h)
    exact ⟨row, schedule, budget, hrow, not_not.mp hversion, hschedule, hbudget, by omega, rfl,
      hcreate⟩

theorem reserveRelayCredits_eq_ok {idBytes : Vector UInt8 16}
    (h : s.reserveRelayCredits C now scope r idBytes = .ok (g, s')) :
    ∃ period cap, capMonth scope = .ok period
      ∧ s.caps.lookup (scope.account, period.startUS) = some cap ∧ cap.periodEndUS = period.endUS
      ∧ cap.effectiveAtUS ≤ unixMicro now
      ∧ (s.grants.find? (fun g' => g'.requestKey = r.key (scope.account, period.startUS)) = some g ∧ s' = s
        ∨ s.grants.find? (fun g' => g'.requestKey = r.key (scope.account, period.startUS)) = none
          ∧ s.reserveNew C scope (scope.account, period.startUS) cap r idBytes = .ok (g, s')) := by
  obtain ⟨period, hperiod, h⟩ := bind_eq_ok.mp h
  obtain ⟨-, h⟩ := guard_eq_ok.mp h
  obtain ⟨cap, hcap, h⟩ := bind_eq_ok.mp h
  obtain ⟨hconflict, h⟩ := guard_eq_ok.mp h
  obtain ⟨hpending, h⟩ := guard_eq_ok.mp h
  rw [not_or, not_not] at hconflict
  refine ⟨period, cap, hperiod, okOr_eq_ok.mp hcap, hconflict.1, not_lt.mp hpending, ?_⟩
  split at h
  · rename_i existing hfound
    obtain ⟨-, h⟩ := guard_eq_ok.mp h
    obtain ⟨rfl, rfl⟩ := Prod.mk.inj (ok.inj h)
    exact .inl ⟨hfound, rfl⟩
  · rename_i hfound
    exact .inr ⟨hfound, h⟩

theorem issueUncappedLease_eq_ok {expiresAtUS : ℤ}
    (h : s.issueUncappedLease now scope r = .ok (expiresAtUS, s')) :
    ∃ period, billingPeriodMicros scope.start scope.finish = .ok period
      ∧ isRelayCapMonth period = true ∧ s.caps.lookup (scope.account, period.startUS) = none
      ∧ expiresAtUS = unixMicro now + RELAY_UNCAPPED_LEASE_US
      ∧ s' = s.putLease ((scope.account, period.startUS), r.relayId, r.generation,
        r.mappingVersion) expiresAtUS := by
  obtain ⟨period, hperiod, h⟩ := bind_eq_ok.mp h
  obtain ⟨hmonth, h⟩ := guard_eq_ok.mp h
  refine ⟨period, hperiod, by simpa using hmonth, ?_⟩
  cases hlookup : s.caps.lookup (scope.account, period.startUS) with
  | none =>
    simp only [hlookup] at h
    obtain ⟨rfl, rfl⟩ := Prod.mk.inj (ok.inj h)
    exact ⟨rfl, rfl, rfl⟩
  | some cap =>
    simp only [hlookup] at h
    split at h <;> cases h

theorem surrenderRelayCredits_eq_ok {account : Bytes} {r : CreditSurrender}
    (h : s.surrenderRelayCredits account r = .ok (g, s')) :
    ∃ found consumed, r.consumedBytes = decimal consumed ∧ found.grantId = r.grantId
      ∧ found.accountId = account ∧ found ∈ s.grants ∧ consumed ≤ found.grantedBytes
      ∧ (found.state = .surrendered ∧ g = found ∧ s' = s
        ∨ found.state = .issued ∧ g = found.surrender consumed r.digest
          ∧ s' = s.saveSurrender found.grantId consumed r.digest) := by
  obtain ⟨account', haccount, h⟩ := bind_eq_ok.mp h
  obtain rfl := ok.inj (guard_eq_ok.mp haccount).2
  obtain ⟨-, h⟩ := guard_eq_ok.mp h
  obtain ⟨consumed, hconsumed, h⟩ := bind_eq_ok.mp h
  obtain ⟨found, hfound, h⟩ := bind_eq_ok.mp h
  obtain ⟨-, h⟩ := guard_eq_ok.mp h
  obtain ⟨hle, h⟩ := guard_eq_ok.mp h
  have hkey := find?_some (okOr_eq_ok.mp hfound)
  rw [decide_eq_true_eq] at hkey
  refine ⟨found, consumed, parseCanonical_eq_some.mp (okOr_eq_ok.mp hconsumed), hkey.1, hkey.2,
    mem_of_find?_eq_some (okOr_eq_ok.mp hfound), not_lt.mp hle, ?_⟩
  split at h
  · rename_i hstate
    obtain ⟨-, h⟩ := guard_eq_ok.mp h
    obtain ⟨-, -, h⟩ := bind_eq_ok.mp h
    obtain ⟨rfl, rfl⟩ := Prod.mk.inj (ok.inj h)
    exact .inl ⟨hstate, rfl, rfl⟩
  · rename_i hstate
    obtain ⟨-, -, h⟩ := bind_eq_ok.mp h
    obtain ⟨rfl, rfl⟩ := Prod.mk.inj (ok.inj h)
    exact .inr ⟨hstate, rfl, rfl⟩

theorem createGrant_eq_ok (h : s.createGrant g = .ok s') :
    s'.caps = s.caps ∧ s'.leases = s.leases ∧ s'.grants = s.grants ++ [g]
      ∧ g.grantId ∉ s.grants.map CreditGrant.grantId
      ∧ g.requestKey ∉ s.grants.map CreditGrant.requestKey := by
  rw [createGrant] at h
  split at h
  · cases h
  · rename_i hfresh
    obtain rfl := ok.inj h
    exact ⟨rfl, rfl, rfl, not_or.mp hfresh⟩

end Store

structure Priced (C : Catalog) (m : AccountMonth) (cap : RelayCap) (schedule : RateSchedule)
    (budget : ℕ) : Prop where
  assigned : ∃ row, C.assignments m.1 m.2 = some row ∧ row.periodEndUS = cap.periodEndUS
    ∧ row.scheduleVersion = cap.scheduleVersion
  loaded : C.schedule cap.scheduleVersion = .ok schedule
  buys : maxRelayBytesForOverage schedule cap.overageMinor = .ok budget

namespace Store

inductive Does (C : Catalog) (s : Store) : Store → Prop
  | nothing : Does C s s
  | enable {m : AccountMonth} {cap : RelayCap} {schedule : RateSchedule} {budget : ℕ}
      (none : s.caps.lookup m = none) (priced : Priced C m cap schedule budget) : Does C s (s.putCap m cap)
  | change {m : AccountMonth} {old cap : RelayCap} {schedule : RateSchedule} {budget : ℕ}
      (found : s.caps.lookup m = some old) (version : cap.scheduleVersion = old.scheduleVersion)
      (priced : Priced C m cap schedule budget)
      (fits : old.overageMinor ≤ cap.overageMinor ∨ s.committed m ≤ budget) : Does C s (s.putCap m cap)
  | grant {s' : Store} {cap : RelayCap} {g : CreditGrant} {schedule : RateSchedule} {budget : ℕ}
      (found : s.caps.lookup g.month = some cap) (priced : Priced C g.month cap schedule budget)
      (issued : g.state = .issued) (fits : s.committed g.month + g.grantedBytes ≤ budget)
      (created : s.createGrant g = .ok s') : Does C s s'
  | surrender {g : CreditGrant} {consumed : ℕ} {digest : Bytes}
      (found : s.grants.find? (fun g' => g'.grantId = g.grantId) = some g)
      (issued : g.state = .issued) (fits : consumed ≤ g.grantedBytes) :
      Does C s (s.saveSurrender g.grantId consumed digest)
  | lease {key : LeaseKey} {expiresAtUS : ℤ} (none : s.caps.lookup key.1 = none) :
      Does C s (s.putLease key expiresAtUS)

variable {C : Catalog} {scope : Scope}

theorem priced_of_scope {period : Period} {schedule : RateSchedule} (cap : RelayCap)
    (hperiod : capMonth scope = .ok period) (hschedule : C.assignedSchedule scope = .ok schedule)
    (hprice : 0 < schedule.relayMinorPerUnit) (hend : cap.periodEndUS = period.endUS)
    (hversion : cap.scheduleVersion = schedule.version) (hoverage : 0 ≤ cap.overageMinor) :
    ∃ budget, Priced C (scope.account, period.startUS) cap schedule budget := by
  obtain ⟨row, hrow, hloaded⟩ := bind_eq_ok.mp hschedule
  obtain ⟨-, period', hperiod', hassigned, hrowEnd⟩ := Catalog.assignment_eq_ok.mp hrow
  obtain rfl := ok.inj (hperiod'.symm.trans (capMonth_eq_ok.mp hperiod).2.1)
  obtain ⟨-, hsame, hvalid⟩ := Catalog.schedule_eq_ok.mp hloaded
  refine ⟨_, ⟨row, hassigned, hrowEnd.trans hend.symm, hsame.symm.trans hversion.symm⟩, ?_,
    maxRelayBytesForOverage_eq_ok.mpr ⟨hvalid, hoverage, hprice.ne', rfl⟩⟩
  rw [hversion, hsame]
  exact hloaded

variable {s : Store}

theorem committed_of_mayDecrease {m : AccountMonth} {budget : ℕ}
    (h : s.mayDecrease m budget = true) : s.committed m ≤ budget := by
  rw [mayDecrease, Bool.and_eq_true, decide_eq_true_eq, all_eq_true] at h
  have hsame : (s.grantsOf m).map CreditGrant.committedBytes
      = (s.grantsOf m).map CreditGrant.consumedBytes := by
    refine map_congr_left fun g hg => ?_
    rw [CreditGrant.committedBytes, of_decide_eq_true (h.1 g hg)]
  rw [committed, hsame]
  exact h.2

variable {s' : Store} {now : Time}

theorem does_setRelaySpendingCap {overageMinor : ℤ} {acknowledged : Bool} {actor : Bytes} {cap : RelayCap}
    (h : s.setRelaySpendingCap C now scope overageMinor acknowledged actor = .ok (cap, s')) :
    Does C s s' := by
  obtain ⟨period, schedule, hperiod, hoverage, hschedule, hprice, hcases⟩ :=
    setRelaySpendingCap_eq_ok h
  rcases hcases with ⟨hnone, rfl, rfl⟩ | ⟨old, hold, hend, hversion, hchange⟩
  · obtain ⟨budget, hpriced⟩ := priced_of_scope (s.newCap now (scope.account, period.startUS)
      period.endUS schedule.version overageMinor) hperiod hschedule hprice rfl rfl hoverage
    exact Does.enable hnone hpriced
  · rcases hchange with ⟨-, rfl⟩ | ⟨rfl, rfl, hfits⟩
    · exact Does.nothing
    · obtain ⟨budget, hpriced⟩ := priced_of_scope (old.revise overageMinor) hperiod hschedule hprice
        hend hversion hoverage
      refine Does.change hold rfl hpriced ?_
      rcases hfits with hraise | ⟨budget', hbudget', hmay⟩
      · exact .inl hraise.le
      · obtain rfl := ok.inj (hbudget'.symm.trans hpriced.buys)
        exact .inr (committed_of_mayDecrease hmay)

theorem does_reserveRelayCredits {r : CreditRequest} {idBytes : Vector UInt8 16} {g : CreditGrant}
    (h : s.reserveRelayCredits C now scope r idBytes = .ok (g, s')) : Does C s s' := by
  obtain ⟨period, cap, hperiod, hcap, hend, -, hcases⟩ := reserveRelayCredits_eq_ok h
  rcases hcases with ⟨-, rfl⟩ | ⟨-, hnew⟩
  · exact Does.nothing
  · obtain ⟨row, schedule, budget, hrow, hversion, hschedule, hbudget, hleft, rfl, hcreated⟩ :=
      reserveNew_eq_ok hnew
    obtain ⟨-, period', hperiod', hassigned, hrowEnd⟩ := Catalog.assignment_eq_ok.mp hrow
    obtain rfl := ok.inj (hperiod'.symm.trans (capMonth_eq_ok.mp hperiod).2.1)
    have hpriced : Priced C (scope.account, period'.startUS) cap schedule budget :=
      ⟨⟨row, hassigned, hrowEnd.trans hend.symm, hversion⟩, hschedule, hbudget⟩
    have hfits : s.committed (scope.account, period'.startUS)
        + min r.requestedBytes (budget - s.committed (scope.account, period'.startUS)) ≤ budget := by
      omega
    exact Does.grant (g := newGrant r (scope.account, period'.startUS) cap
      (budget - s.committed (scope.account, period'.startUS)) idBytes) hcap hpriced rfl hfits hcreated

theorem does_surrenderRelayCredits {account : Bytes} {r : CreditSurrender} {g : CreditGrant}
    (h : s.surrenderRelayCredits account r = .ok (g, s')) : Does C s s' := by
  obtain ⟨found, consumed, -, -, -, hmem, hle, hcases⟩ := surrenderRelayCredits_eq_ok h
  rcases hcases with ⟨-, -, rfl⟩ | ⟨hissued, -, rfl⟩
  · exact Does.nothing
  · exact Does.surrender (find?_of_nodup_map s.ids_nodup hmem) hissued hle

theorem does_issueUncappedLease {r : CreditRequest} {expiresAtUS : ℤ}
    (h : s.issueUncappedLease now scope r = .ok (expiresAtUS, s')) : Does C s s' := by
  obtain ⟨period, -, -, hnone, -, rfl⟩ := issueUncappedLease_eq_ok h
  exact Does.lease hnone

theorem does_settle {α : Type} {result : Except Error (α × Store)}
    (h : ∀ answer s', result = .ok (answer, s') → Does C s s') : Does C s (s.settle result) := by
  cases result with
  | error e => exact Does.nothing
  | ok answer => exact h answer.1 answer.2 rfl

theorem does_step (C : Catalog) (s : Store) (call : Call) : Does C s (s.step C call) := by
  cases call with
  | setCap now scope overageMinor acknowledged actor =>
    exact does_settle fun cap s' h => does_setRelaySpendingCap h
  | reserve now scope request idBytes =>
    exact does_settle fun g s' h => does_reserveRelayCredits h
  | surrender account request =>
    exact does_settle fun g s' h => does_surrenderRelayCredits h
  | lease now scope request =>
    exact does_settle fun expiresAtUS s' h => does_issueUncappedLease h

end Store

end Karst.Billing
