import Karst.Billing.DeviceReports

/-!
# Device billing

Device reports from a ledger of events and coverage, and what they cost: each device is charged the
price of the tier it falls in, for as long as it is there.
-/

namespace Karst.Billing

open Timelines DeviceSegment
open List hiding Vector

/-! ### The rows of a period -/

section

variable {opening startUS endUS t : ℤ} {events : List DeviceEvent} {periods : List CoveragePeriod}

/-- The changes inside a period; those up to its start are in its opening count. -/
def selectEvents (events : List DeviceEvent) (startUS endUS : ℤ) : List DeviceEvent :=
  events.filter fun e => startUS < e.atUS ∧ e.atUS < endUS

def selectPeriods (periods : List CoveragePeriod) (startUS endUS : ℤ) : List CoveragePeriod :=
  (periods.filter fun p => p.startUS < endUS ∧ p.ended startUS = false).insertionSort
    fun p q => p.startUS ≤ q.startUS

def devices (opening : ℤ) (events : List DeviceEvent) (periods : List CoveragePeriod)
    (start finish asOf : Time) : Except UsageError DeviceReport :=
  composeReport start finish asOf (countAt opening events (unixMicro start))
    (selectEvents events (unixMicro start) (unixMicro finish))
    (selectPeriods periods (unixMicro start) (unixMicro finish))

theorem countAt_selectEvents (hstart : startUS ≤ t) (hend : t < endUS) :
    countAt (countAt opening events startUS) (selectEvents events startUS endUS) t
      = countAt opening events t := by
  rw [countAt, countAt, countAt, add_assoc]
  congr 1
  induction events with
  | nil => rfl
  | cons e events ih =>
    rw [selectEvents] at ih ⊢
    by_cases hbefore : e.atUS ≤ startUS
    · have hnot : ¬ (startUS < e.atUS ∧ e.atUS < endUS) := by omega
      have hle : e.atUS ≤ t := hbefore.trans hstart
      simp only [filter_cons, hbefore, hnot, hle, decide_true, decide_false, if_true,
        Bool.false_eq_true, if_false, map_cons, sum_cons, ← ih]
      ring
    · by_cases hinside : e.atUS ≤ t
      · have hin : startUS < e.atUS ∧ e.atUS < endUS := by omega
        simp only [filter_cons, hbefore, hin, hinside, decide_true, decide_false, if_true,
          and_self, Bool.false_eq_true, if_false, map_cons, sum_cons, ← ih]
        ring
      · by_cases hin : startUS < e.atUS ∧ e.atUS < endUS
        · simp only [filter_cons, hbefore, hin, hinside, decide_true, decide_false, if_true,
            and_self, Bool.false_eq_true, if_false, ih]
        · simp only [filter_cons, hbefore, hin, hinside, decide_false, Bool.false_eq_true, if_false, ih]

theorem coverageAt_selectPeriods (hstart : startUS ≤ t) (hend : t < endUS) :
    coverageAt (selectPeriods periods startUS endUS) t = coverageAt periods t := by
  have hperm := perm_insertionSort (fun p q : CoveragePeriod => p.startUS ≤ q.startUS)
    (periods.filter fun p => p.startUS < endUS ∧ p.ended startUS = false)
  -- a period that covers the instant meets the period of the report
  have hselected (p : CoveragePeriod) (hcovers : p.covers t = true) :
      p.startUS < endUS ∧ p.ended startUS = false := by
    rw [CoveragePeriod.covers, Bool.and_eq_true, decide_eq_true_eq, Bool.not_eq_true'] at hcovers
    refine ⟨hcovers.1.trans_lt hend, ?_⟩
    cases hended : p.ended startUS with
    | false => rfl
    | true =>
      rw [ended_mono hstart hended] at hcovers
      cases hcovers.2
  have hany (test : CoveragePeriod → Bool) (htest : ∀ p, test p = true → p.covers t = true) :
      (selectPeriods periods startUS endUS).any test = periods.any test := by
    rw [Bool.eq_iff_iff, any_eq_true, any_eq_true]
    constructor
    · intro h
      obtain ⟨p, hp, hpass⟩ := h
      exact ⟨p, (mem_filter.mp (hperm.mem_iff.mp hp)).1, hpass⟩
    · intro h
      obtain ⟨p, hp, hpass⟩ := h
      refine ⟨p, hperm.mem_iff.mpr (mem_filter.mpr ⟨hp, ?_⟩), hpass⟩
      simpa using hselected p (htest p hpass)
  rw [coverageAt, coverageAt, hany _ fun p hp => (Bool.and_eq_true_iff.mp hp).1, hany _ fun p hp => hp]

theorem Reports.congr {count count' : ℤ → ℤ} {coverage coverage' : ℤ → Coverage}
    {report : DeviceReport} (h : Reports startUS endUS count coverage report)
    (hcount : ∀ t, startUS ≤ t → t < endUS → count t = count' t)
    (hcoverage : ∀ t, startUS ≤ t → t < endUS → coverage t = coverage' t) :
    Reports startUS endUS count' coverage' report := by
  refine ⟨h.tiles, ?_, ?_, ?_, h.complete.trans ?_⟩
  · intro s hs t hlo hhi
    obtain ⟨hmin, -, hmax⟩ := h.tiles.bounds hs
    show (coverage' t, if coverage' t = .complete then some (count' t) else none) = s.told
    rw [← hcount t (hmin.trans hlo) (hhi.trans_le hmax), ← hcoverage t (hmin.trans hlo) (hhi.trans_le hmax)]
    exact h.shows s hs t hlo hhi
  · obtain ⟨n, hn, hsum⟩ := h.total
    refine ⟨n, hn, hsum.trans (integral_congr fun t hs he => ?_)⟩
    rw [hcount t hs he, hcoverage t hs he]
  · intro t hs he
    rw [← hcount t hs he]
    exact h.nonneg t hs he
  · refine forall_congr' fun t => forall_congr' fun hs => forall_congr' fun he => ?_
    rw [hcoverage t hs he]

theorem devices_spec {start finish asOf : Time} {report : DeviceReport}
    (hperiod : unixMicro start ≤ unixMicro finish)
    (h : devices opening events periods start finish asOf = .ok report) :
    report.start = start ∧ report.finish = finish
      ∧ Reports (unixMicro start) (unixMicro finish) (countAt opening events) (coverageAt periods)
        report := by
  have hevents e (he : e ∈ selectEvents events (unixMicro start) (unixMicro finish)) :
      unixMicro start ≤ e.atUS ∧ e.atUS ≤ unixMicro finish := by
    have hin := (mem_filter.mp he).2
    rw [decide_eq_true_eq] at hin
    exact ⟨hin.1.le, hin.2.le⟩
  have hsorted : (selectPeriods periods (unixMicro start) (unixMicro finish)).Pairwise
      fun p q => p.startUS ≤ q.startUS := by
    exact pairwise_insertionSort _ _
  obtain ⟨hs, hf, hreports⟩ := composeReport_spec hperiod hevents hsorted h
  exact ⟨hs, hf, hreports.congr (fun t => countAt_selectEvents) fun t => coverageAt_selectPeriods⟩

end

/-! ### Tiers -/

def tierPrice : List DeviceTier → ℤ → ℤ
  | [], _ => 0
  | tier :: tiers, j =>
    if tier.upToDevices = 0 ∨ j ≤ tier.upToDevices then tier.minorPerPeriod else tierPrice tiers j

noncomputable def graduated (tiers : List DeviceTier) (devices : ℤ) : ℤ :=
  ∑ j ∈ Finset.Ioc 0 devices, tierPrice tiers j

theorem sum_tierPrice {tiers : List DeviceTier} {a b price : ℤ} (hab : a ≤ b)
    (h : ∀ j ≤ b, tierPrice tiers j = price) : ∑ j ∈ Finset.Ioc a b, tierPrice tiers j = (b - a) * price := by
  rw [Finset.sum_congr rfl fun j hj => h j (Finset.mem_Ioc.mp hj).2, Finset.sum_const,
    Int.card_Ioc, nsmul_eq_mul, Int.toNat_of_nonneg (sub_nonneg.mpr hab)]

/-- **The loop over the tiers adds the price of every device that is left.** -/
theorem addDeviceCost_eq (durationUS : ℤ) {tiers : List DeviceTier} {previous remaining : ℤ}
    (hne : tiers ≠ []) (hlast : ∀ tier ∈ tiers.getLast?, tier.upToDevices = 0)
    (hvalid : validTiers previous tiers = true) (hremaining : 0 ≤ remaining) (total : ℤ) :
    addDeviceCost durationUS total remaining previous tiers
      = .ok (total + (∑ j ∈ Finset.Ioc previous (previous + remaining), tierPrice tiers j) * durationUS) := by
  induction tiers generalizing previous remaining total with
  | nil => exact absurd rfl hne
  | cons tier tiers ih =>
    simp only [validTiers, Bool.and_eq_true, Bool.not_eq_true', Bool.or_eq_false_iff,
      decide_eq_false_iff_not, not_lt, Bool.and_eq_false_iff, bne_eq_false_iff_eq,
      beq_eq_false_iff_ne, not_le] at hvalid
    obtain ⟨⟨⟨-, hupper⟩, -⟩, htiers⟩ := hvalid
    have hprice (j : ℤ) (hj : tier.upToDevices = 0 ∨ j ≤ tier.upToDevices) :
        tierPrice (tier :: tiers) j = tier.minorPerPeriod := if_pos hj
    rw [addDeviceCost]
    by_cases hzero : tier.upToDevices = 0
    · -- the last tier takes all that is left
      rw [sum_tierPrice (by omega) fun j _ => hprice j (.inl hzero), add_sub_cancel_left]
      simp only [hzero, ne_eq, not_true_eq_false, if_false, not_lt.mpr hremaining, sub_self, if_true]
    · have hlt : previous < tier.upToDevices := hupper.resolve_left hzero
      have htiersNe : tiers ≠ [] := by
        intro hnil
        exact hzero (hlast tier (by rw [hnil]; rfl))
      have hlast' : ∀ tier ∈ tiers.getLast?, tier.upToDevices = 0 := by
        intro last hmem
        refine hlast last ?_
        rw [getLast?_cons_of_ne_nil htiersNe]
        exact hmem
      by_cases hfits : remaining ≤ tier.upToDevices - previous
      · rw [sum_tierPrice (by omega) fun j hj => hprice j (.inr (by omega)), add_sub_cancel_left]
        simp only [hzero, ne_eq, not_false_eq_true, if_true, min_eq_left hfits, sub_self,
          not_lt.mpr hremaining, if_false]
      · have hmin : min remaining (tier.upToDevices - previous) = tier.upToDevices - previous :=
          min_eq_right (not_le.mp hfits).le
        have hrest : ¬ remaining - (tier.upToDevices - previous) = 0 := by omega
        have hcapacity : ¬ tier.upToDevices - previous < 0 := by omega
        have hsplit : ∑ j ∈ Finset.Ioc previous (previous + remaining), tierPrice (tier :: tiers) j
            = (tier.upToDevices - previous) * tier.minorPerPeriod + ∑ j ∈ Finset.Ioc tier.upToDevices
                (tier.upToDevices + (remaining - (tier.upToDevices - previous))), tierPrice tiers j := by
          rw [← Finset.Ioc_union_Ioc_eq_Ioc hlt.le (show tier.upToDevices ≤ previous + remaining by omega),
            Finset.sum_union (Finset.Ioc_disjoint_Ioc_of_le le_rfl),
            sum_tierPrice hlt.le fun j hj => hprice j (.inr hj)]
          congr 1
          rw [show tier.upToDevices + (remaining - (tier.upToDevices - previous))
            = previous + remaining by ring]
          refine Finset.sum_congr rfl fun j hj => if_neg ?_
          rw [Finset.mem_Ioc] at hj
          omega
        simp only [hzero, ne_eq, not_false_eq_true, if_true, hmin, hcapacity, hrest, if_false]
        rw [ih htiersNe hlast' htiers (by omega), hsplit]
        congr 1
        ring

/-! ### Charges -/

section

variable {tiers : List DeviceTier} {startUS endUS : ℤ}

theorem tiers_of_valid {schedule : RateSchedule} (h : validateRateSchedule schedule = .ok ()) :
    schedule.deviceTiers ≠ [] ∧ (∀ tier ∈ schedule.deviceTiers.getLast?, tier.upToDevices = 0)
      ∧ validTiers 0 schedule.deviceTiers = true := by
  rw [validateRateSchedule, guard_eq_ok, guard_eq_ok, guard_eq_ok, guard_eq_ok] at h
  obtain ⟨hfields, -, htiers, hlast, -⟩ := h
  refine ⟨?_, ?_, by simpa using htiers⟩
  · intro hnil
    simp [hnil] at hfields
  · intro tier hmem
    rw [show schedule.deviceTiers.getLast? = some tier from hmem, Option.any_some] at hlast
    simpa using hlast

theorem addSegmentCosts_eq (hne : tiers ≠ []) (hlast : ∀ tier ∈ tiers.getLast?, tier.upToDevices = 0)
    (hvalid : validTiers 0 tiers = true) {segments : List DeviceSegment}
    (hdevices : ∀ s ∈ segments, 0 ≤ s.devices.getD 0) (total : ℤ) :
    addSegmentCosts tiers total segments = .ok (total
      + (segments.map fun s => graduated tiers (s.devices.getD 0) * (s.hi - s.lo)).sum) := by
  induction segments generalizing total with
  | nil => rw [addSegmentCosts, map_nil, sum_nil, add_zero]
  | cons s segments ih =>
    rw [addSegmentCosts, addDeviceCost_eq _ hne hlast hvalid (hdevices s mem_cons_self), ok_bind,
      ih fun s' hs' => hdevices s' (mem_cons_of_mem s hs'), zero_add, map_cons, sum_cons, ← add_assoc]
    rfl

/-- **The charge is the total price over the period**, however it is cut into segments. -/
theorem deviceCharge_eq (hne : tiers ≠ []) (hlast : ∀ tier ∈ tiers.getLast?, tier.upToDevices = 0)
    (hvalid : validTiers 0 tiers = true) {report : DeviceReport} {count : ℤ → ℤ}
    (hlt : unixMicro report.start < unixMicro report.finish)
    (htiles : Tiles lo hi (unixMicro report.start) report.segments (unixMicro report.finish))
    (hshows : Shows lo hi DeviceSegment.devices
      (fun t => some (count t)) report.segments)
    (hnonneg : ∀ t, unixMicro report.start ≤ t → t < unixMicro report.finish → 0 ≤ count t) :
    deviceCharge report tiers = .ok ((integral (fun t => graduated tiers (count t))
      (unixMicro report.start) (unixMicro report.finish) : ℚ)
        / ((unixMicro report.finish - unixMicro report.start : ℤ) : ℚ)) := by
  -- each segment holds an instant, so its count is one of the counts
  have hdevices s (hs : s ∈ report.segments) : 0 ≤ s.devices.getD 0 := by
    obtain ⟨hmin, hpiece, hmax⟩ := htiles.bounds hs
    rw [← hshows s hs s.lo le_rfl hpiece]
    exact hnonneg s.lo hmin (hpiece.trans_le hmax)
  have hprices : Shows lo hi
      (fun s => graduated tiers (s.devices.getD 0)) (fun t => graduated tiers (count t)) report.segments := by
    intro s hs t hlo hhi
    show graduated tiers (count t) = graduated tiers (s.devices.getD 0)
    rw [← hshows s hs t hlo hhi]
    rfl
  rw [deviceCharge]
  simp only [not_le.mpr (sub_pos.mpr hlt), if_false]
  rw [addSegmentCosts_eq hne hlast hvalid hdevices, zero_add, htiles.sum_eq hprices]
  rfl

end

/-- **Device billing is exact**: the segments tell the counts of the period, reports add up, and
every instant of a device is charged the price of its tier. -/
theorem device_billing_exact (opening : ℤ) (events : List DeviceEvent) (periods : List CoveragePeriod) :
    (∀ start finish asOf report, unixMicro start ≤ unixMicro finish →
      devices opening events periods start finish asOf = .ok report →
        Reports (unixMicro start) (unixMicro finish) (countAt opening events) (coverageAt periods) report)
    ∧ (∀ a b c asOf₁ asOf₂ asOf₃ first second both, unixMicro a ≤ unixMicro b →
      unixMicro b ≤ unixMicro c → devices opening events periods a b asOf₁ = .ok first →
      devices opening events periods b c asOf₂ = .ok second →
      devices opening events periods a c asOf₃ = .ok both →
        (∃ m n, first.deviceMicroseconds = decimal m ∧ second.deviceMicroseconds = decimal n
          ∧ both.deviceMicroseconds = decimal (m + n)) ∧ both.complete = (first.complete && second.complete))
    ∧ (∀ start finish asOf report schedule, unixMicro start < unixMicro finish →
      devices opening events periods start finish asOf = .ok report → report.complete = true →
      validateRateSchedule schedule = .ok () → deviceCharge report schedule.deviceTiers
          = .ok ((integral (fun t => graduated schedule.deviceTiers (countAt opening events t))
            (unixMicro start) (unixMicro finish) : ℚ) / ((unixMicro finish - unixMicro start : ℤ) : ℚ))
        ∧ ∀ report' : DeviceReport, report'.start = start → report'.finish = finish →
          Tiles lo hi (unixMicro start) report'.segments (unixMicro finish) →
          Shows lo hi DeviceSegment.devices
            (fun t => some (countAt opening events t)) report'.segments →
          deviceCharge report' schedule.deviceTiers = deviceCharge report schedule.deviceTiers) := by
  refine ⟨?_, ?_, ?_⟩
  · intro start finish asOf report hperiod h
    exact (devices_spec hperiod h).2.2
  · intro a b c asOf₁ asOf₂ asOf₃ first second both hab hbc hfirst hsecond hboth
    obtain ⟨-, -, hreports₁⟩ := devices_spec hab hfirst
    obtain ⟨-, -, hreports₂⟩ := devices_spec hbc hsecond
    obtain ⟨-, -, hreports₃⟩ := devices_spec (hab.trans hbc) hboth
    obtain ⟨m, hm, hsum₁⟩ := hreports₁.total
    obtain ⟨n, hn, hsum₂⟩ := hreports₂.total
    obtain ⟨k, hk, hsum₃⟩ := hreports₃.total
    have hadd : k = m + n := by
      rw [← integral_add _ hab hbc, ← hsum₁, ← hsum₂] at hsum₃
      exact_mod_cast hsum₃
    refine ⟨⟨m, n, hm, hn, hadd ▸ hk⟩, ?_⟩
    rw [Bool.eq_iff_iff, Bool.and_eq_true, hreports₁.complete, hreports₂.complete, hreports₃.complete]
    constructor
    · intro hall
      exact ⟨fun t ha hb => hall t ha (hb.trans_le hbc), fun t hb hc => hall t (hab.trans hb) hc⟩
    · intro hparts t ha hc
      by_cases hb : t < unixMicro b
      · exact hparts.1 t ha hb
      · exact hparts.2 t (not_lt.mp hb) hc
  · intro start finish asOf report schedule hlt h hcomplete hvalid
    obtain ⟨rfl, rfl, hreports⟩ := devices_spec hlt.le h
    obtain ⟨hne, hlast, htiers⟩ := tiers_of_valid hvalid
    have hall := hreports.complete.mp hcomplete
    have hshows : Shows lo hi DeviceSegment.devices
        (fun t => some (countAt opening events t)) report.segments := by
      intro s hs t hlo hhi
      obtain ⟨hmin, -, hmax⟩ := hreports.tiles.bounds hs
      have htold : (coverageAt periods t, if coverageAt periods t = .complete then
          some (countAt opening events t) else none) = s.told := hreports.shows s hs t hlo hhi
      rw [hall t (hmin.trans hlo) (hhi.trans_le hmax), if_pos rfl] at htold
      exact congrArg Prod.snd htold
    have hcharge := deviceCharge_eq hne hlast htiers hlt hreports.tiles hshows hreports.nonneg
    refine ⟨hcharge, fun report' hs hf htiles' hshows' => ?_⟩
    rw [hcharge]
    rw [← hs, ← hf] at hlt htiles' ⊢
    refine deviceCharge_eq hne hlast htiers hlt htiles' hshows' ?_
    rw [hs, hf]
    exact hreports.nonneg

/-- A second device is enrolled after four of ten microseconds. -/
theorem device_billing_exact_enrolled : ∃ report,
    devices 1 [⟨.enrolled, 4⟩] [⟨0, none, true⟩] 0 10000 10000 = .ok report
      ∧ report.deviceMicroseconds = ascii "16"
      ∧ Reports 0 10 (countAt 1 [⟨.enrolled, 4⟩]) (coverageAt [⟨0, none, true⟩]) report :=
  ⟨_, rfl, rfl, (device_billing_exact _ _ _).1 0 10000 10000 _ (by decide) rfl⟩

end Karst.Billing
