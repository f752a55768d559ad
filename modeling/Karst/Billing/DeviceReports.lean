import Karst.Foundations.Timelines
import Karst.Billing.Pricing

/-!
# Device reports

How `usage/report.go` composes the device report of a period: the changes of the device count and the
bounds of the coverage periods cut the period up, and a sweep over the cuts keeps the count and the
coverage that is in force.
-/

namespace Karst.Billing

open Timelines DeviceSegment
open List hiding Vector

inductive UsageError where
  | conflict
  | reportLimit

def MAX_REPORT_SEGMENTS : ℕ := 10000

def MAX_INT64 : ℤ := 2 ^ 63 - 1

/-! ### Events and coverage -/

inductive Kind where
  | enrolled
  | revoked
  | other
  deriving DecidableEq

def Kind.delta : Kind → ℤ
  | enrolled => 1
  | revoked => -1
  | other => 0

structure DeviceEvent where
  kind : Kind
  atUS : ℤ

/-- Collection coverage; one without an end is still open. -/
structure CoveragePeriod where
  startUS : ℤ
  endUS : Option ℤ
  complete : Bool

namespace CoveragePeriod

def begins (p : CoveragePeriod) (startUS : ℤ) : ℤ := max startUS p.startUS

def finish (p : CoveragePeriod) (endUS : ℤ) : ℤ :=
  match p.endUS with
  | some e => if e < endUS then e else endUS
  | none => endUS

def ended (p : CoveragePeriod) (t : ℤ) : Bool := p.endUS.any (· ≤ t)

def covers (p : CoveragePeriod) (t : ℤ) : Bool := p.startUS ≤ t && !p.ended t

theorem covers_iff {p : CoveragePeriod} {a b t : ℤ} (ha : a ≤ t) (hb : t < b) :
    p.covers t = true ↔ p.begins a ≤ t ∧ t < p.finish b := by
  rw [covers, ended, begins, finish, max_le_iff]
  cases p.endUS with
  | none => simp [ha, hb]
  | some e =>
    simp only [Option.any_some, Bool.and_eq_true, decide_eq_true_eq, Bool.not_eq_true',
      decide_eq_false_iff_not, not_le, ha, true_and]
    split
    · rfl
    · rename_i hle
      exact and_congr_right fun _ => ⟨fun _ => hb, fun _ => hb.trans_le (not_lt.mp hle)⟩

end CoveragePeriod

/-! ### Composition -/

def deltaAt (events : List DeviceEvent) (instant : ℤ) : ℤ :=
  ((events.filter fun e => e.atUS = instant).map fun e => e.kind.delta).sum

def periodBounds (startUS endUS : ℤ) : ℤ → List CoveragePeriod → Except UsageError (List ℤ)
  | _, [] => .ok []
  | previousEnd, p :: ps =>
    if p.finish endUS < p.begins startUS then .error .conflict
    -- periods without duration establish no coverage and no overlap
    else if p.finish endUS = p.begins startUS then periodBounds startUS endUS previousEnd ps
    else if p.begins startUS < previousEnd then .error .conflict
    else
      (periodBounds startUS endUS (p.finish endUS) ps).map fun bounds =>
        p.begins startUS :: p.finish endUS :: bounds

structure Sweep where
  count : ℤ
  periods : List CoveragePeriod
  total : ℤ
  segments : List DeviceSegment
  complete : Bool

def stateAt (periods : List CoveragePeriod) (left : ℤ) : Coverage :=
  match periods with
  | [] => .uncollected
  | p :: _ =>
    if p.startUS ≤ left then if p.complete then .complete else .incomplete else .uncollected

/-- A segment that says what the last one says is joined to it. -/
def addSegment (segments : List DeviceSegment) (segment : DeviceSegment) :
    Except UsageError (List DeviceSegment) :=
  let append := if MAX_REPORT_SEGMENTS < (segments ++ [segment]).length then
      (.error .reportLimit : Except UsageError (List DeviceSegment))
    else .ok (segments ++ [segment])
  match segments.getLast? with
  | some last =>
    if last.coverage = segment.coverage ∧ last.devices = segment.devices then
      .ok (segments.dropLast ++ [{ last with finish := segment.finish }])
    else append
  | none => append

def segmentOf (left right : ℤ) (state : Coverage) (count : ℤ) : DeviceSegment where
  start := left * 1000
  finish := right * 1000
  coverage := state
  devices := if state = .complete then some count else none

def sweepStep (events : List DeviceEvent) (left right : ℤ) (w : Sweep) :
    Except UsageError Sweep :=
  let delta := deltaAt events left
  if (0 < delta ∧ MAX_INT64 - delta < w.count) ∨ (delta < 0 ∧ w.count < -delta) then
    .error .conflict
  else
    let count := w.count + delta
    if count < 0 then .error .conflict
    else
      let periods := w.periods.dropWhile fun p => p.ended left
      let state := stateAt periods left
      (addSegment w.segments (segmentOf left right state count)).map fun segments => {
        count := count
        periods := periods
        total := if state = .complete then w.total + (right - left) * count else w.total
        segments := segments
        complete := w.complete && state = .complete }

def sweep (events : List DeviceEvent) : List ℤ → Sweep → Except UsageError Sweep
  | left :: right :: rest, w =>
    (if left = right then .ok w else sweepStep events left right w) >>= sweep events (right :: rest)
  | _, w => .ok w

def composeReport (start finish asOf : Time) (count : ℤ) (events : List DeviceEvent)
    (periods : List CoveragePeriod) : Except UsageError DeviceReport :=
  if events.any fun e => e.kind = .other then .error .conflict
  else do
    let bounds ← periodBounds (unixMicro start) (unixMicro finish) 0 periods
    let cuts := [unixMicro start, unixMicro finish] ++ events.map DeviceEvent.atUS ++ bounds
    let w ← sweep events (cuts.insertionSort (· ≤ ·)) ⟨count, periods, 0, [], true⟩
    .ok {
      start := start
      finish := finish
      asOf := asOf
      complete := w.complete
      deviceMicroseconds := bigText w.total
      segments := w.segments }

/-! ### What a report should say -/

def countAt (opening : ℤ) (events : List DeviceEvent) (t : ℤ) : ℤ :=
  opening + ((events.filter fun e => e.atUS ≤ t).map fun e => e.kind.delta).sum

def coverageAt (periods : List CoveragePeriod) (t : ℤ) : Coverage :=
  if periods.any fun p => p.covers t && p.complete then .complete
  else if periods.any fun p => p.covers t then .incomplete
  else .uncollected

def statement (opening : ℤ) (events : List DeviceEvent) (periods : List CoveragePeriod) (t : ℤ) :
    Coverage × Option ℤ :=
  (coverageAt periods t,
    if coverageAt periods t = .complete then some (countAt opening events t) else none)

def observed (opening : ℤ) (events : List DeviceEvent) (periods : List CoveragePeriod) (t : ℤ) : ℤ :=
  if coverageAt periods t = .complete then countAt opening events t else 0

namespace DeviceSegment

def lo (s : DeviceSegment) : ℤ := unixMicro s.start
def hi (s : DeviceSegment) : ℤ := unixMicro s.finish
def told (s : DeviceSegment) : Coverage × Option ℤ := (s.coverage, s.devices)

end DeviceSegment

/-! ### Counts -/

section

variable {events : List DeviceEvent} {left right t : ℤ}

def countBefore (opening : ℤ) (events : List DeviceEvent) (t : ℤ) : ℤ :=
  opening + ((events.filter fun e => e.atUS < t).map fun e => e.kind.delta).sum

theorem countBefore_add_deltaAt (opening : ℤ) (events : List DeviceEvent) (t : ℤ) :
    countBefore opening events t + deltaAt events t = countAt opening events t := by
  rw [countBefore, deltaAt, countAt, add_assoc]
  congr 1
  induction events with
  | nil => rfl
  | cons e events ih =>
    rcases lt_trichotomy e.atUS t with h | h | h
    · simp only [filter_cons, h, h.le, h.ne, decide_true, decide_false, if_true,
        Bool.false_eq_true, if_false, map_cons, sum_cons, ← ih]
      ring
    · simp only [filter_cons, h, le_refl, lt_irrefl, decide_true, decide_false, if_true,
        Bool.false_eq_true, if_false, map_cons, sum_cons, ← ih]
      ring
    · simp only [filter_cons, h.not_gt, h.not_ge, h.ne', decide_false, Bool.false_eq_true, if_false, ih]

theorem countAt_between (opening : ℤ) (h : ∀ e ∈ events, e.atUS ≤ left ∨ right ≤ e.atUS)
    (hleft : left ≤ t) (hright : t < right) : countAt opening events t = countAt opening events left := by
  rw [countAt, countAt]
  congr 3
  refine filter_congr fun e he => decide_eq_decide.mpr ?_
  have hcut := h e he
  omega

theorem countBefore_next (opening : ℤ) (h : ∀ e ∈ events, e.atUS ≤ left ∨ right ≤ e.atUS)
    (hlt : left < right) : countBefore opening events right = countAt opening events left := by
  rw [countBefore, countAt]
  congr 3
  refine filter_congr fun e he => decide_eq_decide.mpr ?_
  have hcut := h e he
  omega

end

/-! ### Coverage -/

section

variable {startUS endUS previousEnd left right : ℤ} {periods : List CoveragePeriod} {bounds : List ℤ}

structure Bounded (startUS endUS : ℤ) (periods : List CoveragePeriod) (bounds : List ℤ) : Prop where
  within : ∀ v ∈ bounds, startUS ≤ v ∧ v ≤ endUS
  cut : ∀ p ∈ periods, p.begins startUS < p.finish endUS → p.begins startUS ∈ bounds ∧ p.finish endUS ∈ bounds
  disjoint : periods.Pairwise fun p q => p.begins startUS < p.finish endUS →
    q.begins startUS < q.finish endUS → p.finish endUS ≤ q.begins startUS

theorem CoveragePeriod.finish_le (p : CoveragePeriod) (endUS : ℤ) : p.finish endUS ≤ endUS := by
  rw [finish]
  split
  · split <;> omega
  · exact le_rfl

theorem bounded_periodBounds (h : periodBounds startUS endUS previousEnd periods = .ok bounds) :
    Bounded startUS endUS periods bounds
      ∧ ∀ p ∈ periods, p.begins startUS < p.finish endUS → previousEnd ≤ p.begins startUS := by
  induction periods generalizing previousEnd bounds with
  | nil =>
    obtain rfl := Except.ok.inj h
    refine ⟨⟨?_, ?_, Pairwise.nil⟩, ?_⟩ <;> intro v hv <;> cases hv
  | cons p ps ih =>
    rw [periodBounds, guard_eq_ok] at h
    obtain ⟨hwrong, h⟩ := h
    by_cases hempty : p.finish endUS = p.begins startUS
    · rw [if_pos hempty] at h
      obtain ⟨hbounded, hafter⟩ := ih h
      refine ⟨⟨hbounded.within, ?_, ?_⟩, ?_⟩
      · intro q hq hlt
        rcases mem_cons.mp hq with rfl | hq
        · exact absurd hempty.symm hlt.ne
        · exact hbounded.cut q hq hlt
      · exact Pairwise.cons (fun q _ hlt => absurd hempty.symm hlt.ne) hbounded.disjoint
      · intro q hq hlt
        rcases mem_cons.mp hq with rfl | hq
        · exact absurd hempty.symm hlt.ne
        · exact hafter q hq hlt
    · rw [if_neg hempty, guard_eq_ok] at h
      obtain ⟨hprevious, h⟩ := h
      obtain ⟨rest, hrest, rfl⟩ := map_eq_ok.mp h
      obtain ⟨hbounded, hafter⟩ := ih hrest
      have hstart : startUS ≤ p.begins startUS := le_max_left _ _
      have hend := p.finish_le endUS
      refine ⟨⟨?_, ?_, ?_⟩, ?_⟩
      · intro v hv
        rcases mem_cons.mp hv with rfl | hv
        · omega
        · rcases mem_cons.mp hv with rfl | hv
          · omega
          · exact hbounded.within v hv
      · intro q hq hlt
        rcases mem_cons.mp hq with rfl | hq
        · exact ⟨by simp, by simp⟩
        · obtain ⟨hbegins, hfinish⟩ := hbounded.cut q hq hlt
          exact ⟨by simp [hbegins], by simp [hfinish]⟩
      · exact Pairwise.cons (fun q hq _ hlt => hafter q hq hlt) hbounded.disjoint
      · intro q hq hlt
        rcases mem_cons.mp hq with rfl | hq
        · omega
        · have hlater := hafter q hq hlt
          omega

theorem coverageAt_of_unique {p : CoveragePeriod} {t : ℤ} (hp : p ∈ periods)
    (hcovers : p.covers t = true) (hunique : ∀ q ∈ periods, q.covers t = true → q = p) :
    coverageAt periods t = if p.complete then .complete else .incomplete := by
  have hany : (periods.any fun q => q.covers t) = true := any_eq_true.mpr ⟨p, hp, hcovers⟩
  have hcomplete : (periods.any fun q => q.covers t && q.complete) = p.complete := by
    rw [Bool.eq_iff_iff, any_eq_true]
    constructor
    · intro h
      obtain ⟨q, hq, hboth⟩ := h
      rw [Bool.and_eq_true] at hboth
      rw [← hunique q hq hboth.1]
      exact hboth.2
    · intro h
      exact ⟨p, hp, by rw [hcovers, h]; rfl⟩
  rw [coverageAt, hcomplete, hany]
  rfl

theorem coverageAt_of_none {t : ℤ} (h : ∀ q ∈ periods, q.covers t = false) :
    coverageAt periods t = .uncollected := by
  have hnone (test : CoveragePeriod → Bool) (htest : ∀ q, q.covers t = false → test q = false) :
      periods.any test = false := by
    rw [any_eq_false]
    intro q hq
    rw [htest q (h q hq)]
    exact Bool.false_ne_true
  rw [coverageAt, hnone _ (fun q hq => by rw [hq]; rfl), hnone _ fun q hq => hq]
  rfl

/-- **Between two cuts the coverage is that of the period that is next.**  Those before it have ended;
it covers all of the piece or none, and neither does any after it. -/
theorem coverageAt_between (hbounded : Bounded startUS endUS periods bounds)
    (hsorted : periods.Pairwise fun p q => p.startUS ≤ q.startUS) {gone rest : List CoveragePeriod}
    (hperiods : periods = gone ++ rest) (hgone : ∀ p ∈ gone, p.ended left = true)
    (hnext : ∀ p ∈ rest.head?, p.ended left = false)
    (hcuts : ∀ v ∈ bounds, v ≤ left ∨ right ≤ v) (hstart : startUS ≤ left) (hend : right ≤ endUS)
    {t : ℤ} (hleft : left ≤ t) (hright : t < right) : coverageAt periods t = stateAt rest left := by
  have hcoversIff (p : CoveragePeriod) := CoveragePeriod.covers_iff (p := p) (hstart.trans hleft)
    (hright.trans_le hend)
  have hpast (p : CoveragePeriod) (hp : p ∈ gone) : p.covers t = false := by
    have hended := hgone p hp
    rw [CoveragePeriod.ended, Option.any_eq_true] at hended
    obtain ⟨e, he, hle⟩ := hended
    rw [decide_eq_true_eq] at hle
    rw [CoveragePeriod.covers, CoveragePeriod.ended, he]
    simp [hle.trans hleft]
  -- a period that covers the instant covers the whole piece
  have hwhole (p : CoveragePeriod) (hp : p ∈ periods) (hcovers : p.covers t = true) :
      p.begins startUS ≤ left ∧ right ≤ p.finish endUS := by
    obtain ⟨hbegins, hfinish⟩ := (hcoversIff p).mp hcovers
    obtain ⟨hcut, hcut'⟩ := hbounded.cut p hp (hbegins.trans_lt hfinish)
    have := hcuts _ hcut
    have := hcuts _ hcut'
    omega
  cases rest with
  | nil =>
    refine coverageAt_of_none fun q hq => hpast q ?_
    rw [hperiods, append_nil] at hq
    exact hq
  | cons p ps =>
    have hp : p ∈ periods := by
      rw [hperiods]
      simp
    rw [hperiods, pairwise_append, pairwise_cons] at hsorted
    have hdisjoint := hbounded.disjoint
    rw [hperiods, pairwise_append, pairwise_cons] at hdisjoint
    by_cases hbegun : p.startUS ≤ left
    · rw [stateAt, if_pos hbegun]
      have hat : p.covers left = true := by
        rw [CoveragePeriod.covers, hnext p rfl]
        simpa using hbegun
      obtain ⟨hbegins, hfinish⟩ := (CoveragePeriod.covers_iff hstart
        (hleft.trans_lt (hright.trans_le hend))).mp hat
      have hlt := hbegins.trans_lt hfinish
      have hcut := hcuts _ (hbounded.cut p hp hlt).2
      have hcovers : p.covers t = true := (hcoversIff p).mpr (by omega)
      refine coverageAt_of_unique hp hcovers fun q hq hq' => ?_
      rw [hperiods, mem_append, mem_cons] at hq
      rcases hq with hq | rfl | hq
      · rw [hpast q hq] at hq'
        cases hq'
      · rfl
      · obtain ⟨hbegins', hfinish'⟩ := (hcoversIff q).mp hq'
        have hapart := hdisjoint.2.1.1 q hq hlt (hbegins'.trans_lt hfinish')
        omega
    · rw [stateAt, if_neg hbegun]
      refine coverageAt_of_none fun q hq => ?_
      cases hq' : q.covers t with
      | false => rfl
      | true =>
        exfalso
        obtain ⟨hbegins, -⟩ := hwhole q hq hq'
        rw [hperiods, mem_append, mem_cons] at hq
        have hlater : q.startUS ≤ left := (le_max_right _ _).trans hbegins
        rcases hq with hq | rfl | hq
        · rw [hpast q hq] at hq'
          cases hq'
        · exact hbegun hlater
        · exact hbegun ((hsorted.2.1.1 q hq).trans hlater)

end

/-! ### The sweep -/

@[simp] theorem unixMicro_mul (t : ℤ) : unixMicro (t * 1000) = t :=
  Int.mul_ediv_cancel t (by decide)

section

variable {startUS endUS opening left right : ℤ} {events : List DeviceEvent}
  {periods : List CoveragePeriod} {bounds : List ℤ} {w w' : Sweep}

theorem addSegment_spec {segments segments' : List DeviceSegment} {segment : DeviceSegment}
    {f : ℤ → Coverage × Option ℤ} {a b : ℤ} (h : addSegment segments segment = .ok segments')
    (htiles : Tiles lo hi a segments b) (hshows : Shows lo hi told f segments)
    (hlo : segment.lo = b) (hlt : b < segment.hi)
    (htold : ∀ t, segment.lo ≤ t → t < segment.hi → f t = segment.told) : Tiles lo hi a segments' segment.hi
      ∧ Shows lo hi told f segments' := by
  have happend : Tiles lo hi a (segments ++ [segment]) segment.hi
      ∧ Shows lo hi told f (segments ++ [segment]) :=
    ⟨tiles_concat.mpr ⟨hlo ▸ htiles, hlo ▸ hlt, rfl⟩, shows_concat.mpr ⟨hshows, htold⟩⟩
  rw [addSegment] at h
  rcases eq_nil_or_concat segments with rfl | ⟨before, last, rfl⟩
  · obtain rfl := Except.ok.inj (guard_eq_ok.mp h).2
    exact happend
  · rw [concat_eq_append] at h htiles hshows happend
    rw [getLast?_concat] at h
    simp only [dropLast_concat] at h
    split at h
    · rename_i hsame
      obtain rfl := Except.ok.inj h
      obtain ⟨hbefore, hlast, rfl⟩ := tiles_concat.mp htiles
      obtain ⟨hshowsBefore, hshowsLast⟩ := shows_concat.mp hshows
      have htoldSame : last.told = segment.told := Prod.ext hsame.1 hsame.2
      refine ⟨tiles_concat.mpr ⟨hbefore, hlast.trans hlt, rfl⟩, shows_concat.mpr ⟨hshowsBefore, ?_⟩⟩
      intro t hle hlt'
      show f t = last.told
      by_cases ht : t < last.hi
      · exact hshowsLast t hle ht
      · rw [htoldSame]
        exact htold t (hlo ▸ not_lt.mp ht) hlt'
    · obtain rfl := Except.ok.inj (guard_eq_ok.mp h).2
      exact happend

structure Swept (startUS opening : ℤ) (events : List DeviceEvent) (periods : List CoveragePeriod)
    (x : ℤ) (w : Sweep) : Prop where
  count : w.count = countBefore opening events x
  gone : ∃ gone, periods = gone ++ w.periods ∧ ∀ p ∈ gone, p.ended x = true
  tiles : Tiles DeviceSegment.lo DeviceSegment.hi startUS w.segments x
  shows : Shows DeviceSegment.lo DeviceSegment.hi DeviceSegment.told
    (statement opening events periods) w.segments
  total : w.total = integral (observed opening events periods) startUS x
  nonneg : ∀ t, startUS ≤ t → t < x → 0 ≤ countAt opening events t
  complete : w.complete = true ↔ ∀ t, startUS ≤ t → t < x → coverageAt periods t = .complete

theorem ended_mono {p : CoveragePeriod} {x y : ℤ} (hxy : x ≤ y) (h : p.ended x = true) :
    p.ended y = true := by
  rw [CoveragePeriod.ended, Option.any_eq_true] at h ⊢
  obtain ⟨e, he, hle⟩ := h
  rw [decide_eq_true_eq] at hle
  exact ⟨e, he, by simpa using hle.trans hxy⟩

theorem swept_step (hbounded : Bounded startUS endUS periods bounds)
    (hsorted : periods.Pairwise fun p q => p.startUS ≤ q.startUS)
    (hevents : ∀ e ∈ events, e.atUS ≤ left ∨ right ≤ e.atUS)
    (hcuts : ∀ v ∈ bounds, v ≤ left ∨ right ≤ v) (hstart : startUS ≤ left) (hend : right ≤ endUS)
    (hlt : left < right) (hw : Swept startUS opening events periods left w)
    (h : sweepStep events left right w = .ok w') : Swept startUS opening events periods right w' := by
  rw [sweepStep, guard_eq_ok] at h
  obtain ⟨-, h⟩ := h
  rw [guard_eq_ok] at h
  obtain ⟨hnonneg, h⟩ := h
  obtain ⟨segments, hsegments, rfl⟩ := map_eq_ok.mp h
  have hcount : w.count + deltaAt events left = countAt opening events left := by
    rw [hw.count, countBefore_add_deltaAt]
  rw [hcount] at hnonneg hsegments
  obtain ⟨gone, hgone, hended⟩ := hw.gone
  -- the periods that end by the left cut are passed over
  set passed := w.periods.takeWhile fun p => p.ended left with hpassed
  set rest := w.periods.dropWhile fun p => p.ended left with hrest
  have hperiods : periods = (gone ++ passed) ++ rest := by
    rw [append_assoc, hpassed, hrest, takeWhile_append_dropWhile, hgone]
  have hpast p (hp : p ∈ gone ++ passed) : p.ended left = true := by
    rcases mem_append.mp hp with hp | hp
    · exact hended p hp
    · exact mem_takeWhile_imp (p := fun q : CoveragePeriod => q.ended left) hp
  have hnext p (hp : p ∈ rest.head?) : p.ended left = false := by
    have hhead := head?_dropWhile_not (fun p : CoveragePeriod => p.ended left) w.periods
    rw [← hrest, show rest.head? = some p from hp] at hhead
    exact hhead
  have hcoverage (t : ℤ) (hl : left ≤ t) (hr : t < right) : coverageAt periods t = stateAt rest left :=
    coverageAt_between hbounded hsorted hperiods hpast hnext hcuts hstart hend hl hr
  have hconst (t : ℤ) (hl : left ≤ t) (hr : t < right) :
      countAt opening events t = countAt opening events left :=
    countAt_between opening hevents hl hr
  have htold (t : ℤ) (hl : left ≤ t) (hr : t < right) : statement opening events periods t
      = (segmentOf left right (stateAt rest left) (countAt opening events left)).told := by
    rw [statement, hcoverage t hl hr, hconst t hl hr]
    rfl
  have hlo : (segmentOf left right (stateAt rest left) (countAt opening events left)).lo = left :=
    unixMicro_mul left
  have hhi : (segmentOf left right (stateAt rest left) (countAt opening events left)).hi = right :=
    unixMicro_mul right
  obtain ⟨htiles, hshows⟩ := addSegment_spec hsegments hw.tiles hw.shows hlo (hhi.symm ▸ hlt)
    fun t hl hr => htold t (hlo ▸ hl) (hhi ▸ hr)
  constructor
  · rw [hcount, countBefore_next opening hevents hlt]
  · exact ⟨gone ++ passed, hperiods, fun p hp => ended_mono hlt.le (hpast p hp)⟩
  · exact hhi ▸ htiles
  · exact hshows
  · have hpiece : integral (observed opening events periods) left right
        = (right - left) * if stateAt rest left = .complete then countAt opening events left else 0 := by
      refine integral_of_const hlt.le fun t hl hr => ?_
      rw [observed, hcoverage t hl hr, hconst t hl hr]
    rw [← integral_add _ hstart hlt.le, ← hw.total, hpiece, hcount]
    split
    · rfl
    · rw [mul_zero, add_zero]
  · intro t hs hr
    by_cases ht : t < left
    · exact hw.nonneg t hs ht
    · rw [hconst t (not_lt.mp ht) hr]
      exact not_lt.mp hnonneg
  · rw [Bool.and_eq_true, hw.complete, decide_eq_true_eq]
    constructor
    · intro hboth t hs hr
      by_cases ht : t < left
      · exact hboth.1 t hs ht
      · rw [hcoverage t (not_lt.mp ht) hr]
        exact hboth.2
    · intro hall
      refine ⟨fun t hs hl => hall t hs (hl.trans hlt), ?_⟩
      rw [← hcoverage left le_rfl hlt]
      exact hall left hstart hlt

/-- **The whole sweep.**  Every cut was passed or is still to come. -/
theorem swept_sweep (hbounded : Bounded startUS endUS periods bounds)
    (hsorted : periods.Pairwise fun p q => p.startUS ≤ q.startUS) {x : ℤ} {cuts : List ℤ}
    (hcuts : (x :: cuts).Pairwise (· ≤ ·)) (hevents : ∀ e ∈ events, e.atUS ≤ x ∨ e.atUS ∈ cuts)
    (hbounds : ∀ v ∈ bounds, v ≤ x ∨ v ∈ cuts) (hstart : startUS ≤ x)
    (hend : ∀ v ∈ cuts, v ≤ endUS) (hw : Swept startUS opening events periods x w)
    (h : sweep events (x :: cuts) w = .ok w') :
    Swept startUS opening events periods ((x :: cuts).getLast (cons_ne_nil x cuts)) w' := by
  induction cuts generalizing x w with
  | nil =>
    obtain rfl := Except.ok.inj h
    exact hw
  | cons right rest ih =>
    obtain ⟨w₁, hstep, h⟩ := bind_eq_ok.mp h
    rw [pairwise_cons] at hcuts
    obtain ⟨hfirst, hcuts⟩ := hcuts
    have hle : x ≤ right := hfirst right mem_cons_self
    have hrest := (pairwise_cons.mp hcuts).1
    have hpass {v : ℤ} (hv : v ≤ x ∨ v ∈ right :: rest) : v ≤ right ∨ v ∈ rest := by
      rcases hv with hv | hv
      · exact Or.inl (hv.trans hle)
      · exact (mem_cons.mp hv).imp le_of_eq id
    have hahead {v : ℤ} (hv : v ≤ x ∨ v ∈ right :: rest) : v ≤ x ∨ right ≤ v := by
      rcases hv with hv | hv
      · exact Or.inl hv
      · rcases mem_cons.mp hv with rfl | hv
        · exact Or.inr le_rfl
        · exact Or.inr (hrest v hv)
    refine ih hcuts (fun e he => hpass (hevents e he)) (fun v hv => hpass (hbounds v hv))
      (hstart.trans hle) (fun v hv => hend v (mem_cons_of_mem right hv)) ?_ h
    by_cases heq : x = right
    · rw [if_pos heq] at hstep
      obtain rfl := Except.ok.inj hstep
      exact heq ▸ hw
    · rw [if_neg heq] at hstep
      exact swept_step hbounded hsorted (fun e he => hahead (hevents e he))
        (fun v hv => hahead (hbounds v hv)) hstart (hend right mem_cons_self)
        (lt_of_le_of_ne hle heq) hw hstep

/-- What a report of a period says, against the count and the coverage of its instants. -/
structure Reports (startUS endUS : ℤ) (count : ℤ → ℤ) (coverage : ℤ → Coverage)
    (report : DeviceReport) : Prop where
  tiles : Tiles DeviceSegment.lo DeviceSegment.hi startUS report.segments endUS
  shows : Shows DeviceSegment.lo DeviceSegment.hi DeviceSegment.told
    (fun t => (coverage t, if coverage t = .complete then some (count t) else none)) report.segments
  total : ∃ n : ℕ, report.deviceMicroseconds = decimal n
    ∧ (n : ℤ) = integral (fun t => if coverage t = .complete then count t else 0) startUS endUS
  nonneg : ∀ t, startUS ≤ t → t < endUS → 0 ≤ count t
  complete : report.complete = true ↔ ∀ t, startUS ≤ t → t < endUS → coverage t = .complete

/-- **What is composed is right**, for events inside the period and coverage in order. -/
theorem composeReport_spec {start finish asOf : Time} {report : DeviceReport}
    (hperiod : unixMicro start ≤ unixMicro finish)
    (hevents : ∀ e ∈ events, unixMicro start ≤ e.atUS ∧ e.atUS ≤ unixMicro finish)
    (hsorted : periods.Pairwise fun p q => p.startUS ≤ q.startUS)
    (h : composeReport start finish asOf opening events periods = .ok report) :
    report.start = start ∧ report.finish = finish
      ∧ Reports (unixMicro start) (unixMicro finish) (countAt opening events) (coverageAt periods)
        report := by
  rw [composeReport, guard_eq_ok] at h
  obtain ⟨-, h⟩ := h
  obtain ⟨bounds, hbounds, h⟩ := bind_eq_ok.mp h
  obtain ⟨w, hw, h⟩ := bind_eq_ok.mp h
  obtain rfl := Except.ok.inj h
  obtain ⟨hbounded, -⟩ := bounded_periodBounds hbounds
  set cuts := [unixMicro start, unixMicro finish] ++ events.map DeviceEvent.atUS ++ bounds with hcuts
  -- the cuts lie between the ends of the period, which are cuts themselves
  have hwithin v (hv : v ∈ cuts) : unixMicro start ≤ v ∧ v ≤ unixMicro finish := by
    simp only [hcuts, mem_append, mem_cons, not_mem_nil, or_false, mem_map, or_assoc] at hv
    rcases hv with rfl | rfl | ⟨e, he, rfl⟩ | hv
    · exact ⟨le_rfl, hperiod⟩
    · exact ⟨hperiod, le_rfl⟩
    · exact hevents e he
    · exact hbounded.within v hv
  obtain ⟨rest, hlist, hpairwise, hlast, hmem⟩ := exists_sorted_cuts (a := unixMicro start)
    (b := unixMicro finish) (by simp [hcuts]) (by simp [hcuts]) hwithin
  rw [hlist] at hw
  have hpassed {v : ℤ} (hv : v ∈ cuts) : v ≤ unixMicro start ∨ v ∈ rest :=
    (mem_cons.mp ((hmem v).mpr hv)).imp le_of_eq id
  have heventCut (e : DeviceEvent) (he : e ∈ events) : e.atUS ∈ cuts :=
    mem_append_left _ (mem_append_right _ (mem_map_of_mem he))
  have hinitial : Swept (unixMicro start) opening events periods (unixMicro start)
      ⟨opening, periods, 0, [], true⟩ := by
    have hnone : (events.filter fun e => e.atUS < unixMicro start) = [] := by
      rw [filter_eq_nil_iff]
      intro e he
      simpa using (hevents e he).1
    refine ⟨?_, ⟨[], rfl, fun p hp => ?_⟩, rfl, fun s hs => ?_, (integral_self _ _).symm,
      fun t hs hx => absurd hs (not_le.mpr hx), ⟨fun _ t hs hx => absurd hs (not_le.mpr hx), fun _ => rfl⟩⟩
    · rw [countBefore, hnone]
      exact (add_zero opening).symm
    · cases hp
    · cases hs
  have hswept := swept_sweep hbounded hsorted hpairwise (fun e he => hpassed (heventCut e he))
    (fun v hv => hpassed (mem_append_right _ hv)) le_rfl
    (fun v hv => (hwithin v ((hmem v).mp (mem_cons_of_mem _ hv))).2) hinitial hw
  rw [hlast] at hswept
  refine ⟨rfl, rfl, hswept.tiles, hswept.shows, ?_, hswept.nonneg, hswept.complete⟩
  have hnonneg : 0 ≤ integral (observed opening events periods) (unixMicro start) (unixMicro finish) := by
    refine integral_nonneg fun t hs hf => ?_
    rw [observed]
    split
    · exact hswept.nonneg t hs hf
    · exact le_rfl
  refine ⟨w.total.toNat, ?_, ?_⟩
  · rw [bigText, if_neg (not_lt.mpr (hswept.total ▸ hnonneg))]
  · rw [Int.toNat_of_nonneg (hswept.total ▸ hnonneg), hswept.total]
    rfl

end

end Karst.Billing
