import Karst.Billing.Invoice

/-!
# What relays may spend

Grants and uncapped leases as the relays hold them, against the store that issues them.  A retry of a
request is answered with the grant on record, whatever became of it: a relay that repeats a request
after it has surrendered the grant is handed credits that the store counts as free.  And a cap waits for
the leases of its own month only.
-/

namespace Karst.Billing.Store

open Except Karst.Billing.System
open List hiding Vector

variable {C : Catalog} {s s' : Store} {scope : Scope} {now : Time}

theorem startUS_eq {period : Period} (h : billingPeriodMicros scope.start scope.finish = .ok period) :
    period.startUS = unixMicro scope.start := by
  obtain rfl := ok.inj (guard_eq_ok.mp h).2
  rfl

/-! ### Grants -/

/-- A store and the relays that draw on it: what may be spent under each grant, as the answers have it,
and the requests whose grants have been surrendered. -/
structure Drawing where
  store : Store
  spendable : Bytes → ℕ
  returned : List (AccountMonth × Bytes × Bytes × Bytes)

namespace Drawing

def initial : Drawing := ⟨.empty, fun _ => 0, []⟩

/-- A relay may spend what it is granted and, once it has surrendered the grant, no more than it says
it has spent. -/
def step (C : Catalog) (w : Drawing) : Call → Drawing
  | .reserve now scope r idBytes =>
    match w.store.reserveRelayCredits C now scope r idBytes with
    | .ok (g, s) => ⟨s, Function.update w.spendable g.grantId g.grantedBytes, w.returned⟩
    | .error _ => w
  | .surrender account r =>
    match w.store.surrenderRelayCredits account r with
    | .ok (g, s) =>
      ⟨s, Function.update w.spendable g.grantId g.consumedBytes, g.requestKey :: w.returned⟩
    | .error _ => w
  | call => { w with store := w.store.step C call }

/-- The call does not repeat a request whose grant has been surrendered. -/
def fresh (w : Drawing) : Call → Bool
  | .reserve _ scope r _ => !w.returned.contains (r.key (scope.account, unixMicro scope.start))
  | _ => true

def spendableIn (w : Drawing) (m : AccountMonth) : ℕ :=
  ((w.store.grantsOf m).map fun g => w.spendable g.grantId).sum

/-- The relays may spend what the store has committed, and surrendered grants are known. -/
structure Agrees (w : Drawing) : Prop where
  spendable : ∀ g ∈ w.store.grants, w.spendable g.grantId = g.committedBytes
  returned : ∀ g ∈ w.store.grants, g.state = .surrendered → g.requestKey ∈ w.returned

variable {w : Drawing} {call : Call} {g : CreditGrant}

theorem step_store (C : Catalog) (w : Drawing) (call : Call) :
    (w.step C call).store = w.store.step C call := by
  cases call with
  | reserve now scope r idBytes =>
    simp only [step, Store.step, settle]
    cases w.store.reserveRelayCredits C now scope r idBytes <;> rfl
  | surrender account r =>
    simp only [step, Store.step, settle]
    cases w.store.surrenderRelayCredits account r <;> rfl
  | setCap | lease => rfl

theorem run_store (C : Catalog) (calls : List Call) :
    (Runs.run (step C) initial calls).store = after C calls := by
  induction calls using List.reverseRecOn with
  | nil => rfl
  | append_singleton calls call ih => rw [Runs.run_concat, step_store, ih, after, after, Runs.run_concat]

/-- A call that answers with `g` and touches no other grant keeps the agreement, if the relays are told
what the store has committed. -/
theorem Agrees.update (h : w.Agrees) (hg : g ∈ s'.grants)
    (hothers : ∀ g' ∈ s'.grants, g' ∈ w.store.grants ∨ g' = g) {bytes : ℕ}
    (hbytes : bytes = g.committedBytes) {returned : List (AccountMonth × Bytes × Bytes × Bytes)}
    (hreturned : w.returned ⊆ returned) (hstate : g.state = .surrendered → g.requestKey ∈ returned) :
    Agrees ⟨s', Function.update w.spendable g.grantId bytes, returned⟩ := by
  constructor
  · intro g' hg'
    dsimp only
    by_cases hid : g'.grantId = g.grantId
    · obtain rfl := inj_on_of_nodup_map s'.ids_nodup hg' hg hid
      rw [Function.update_self, hbytes]
    · rw [Function.update_of_ne hid]
      rcases hothers g' hg' with hold | rfl
      · exact h.spendable g' hold
      · exact absurd rfl hid
  · intro g' hg' hstate'
    rcases hothers g' hg' with hold | rfl
    · exact hreturned (h.returned g' hold hstate')
    · exact hstate hstate'

theorem Agrees.reserved_issued (h : w.Agrees) {r : CreditRequest} {idBytes : Vector UInt8 16}
    (hfresh : w.fresh (.reserve now scope r idBytes) = true)
    (hanswer : w.store.reserveRelayCredits C now scope r idBytes = .ok (g, s')) : g.state = .issued := by
  obtain ⟨period, cap, hperiod, -, -, -, ⟨hfound, -⟩ | ⟨-, hnew⟩⟩ := reserveRelayCredits_eq_ok hanswer
  · cases hstate : g.state with
    | issued => rfl
    | surrendered =>
      have hmem := h.returned g (mem_of_find?_eq_some hfound) hstate
      rw [(mem_of_reserve hanswer).2] at hmem
      exact absurd hmem (by simpa [fresh] using hfresh)
  · obtain ⟨-, -, -, -, -, -, -, -, rfl, -⟩ := reserveNew_eq_ok hnew
    rfl

/-- **One call** that repeats no surrendered request keeps the agreement. -/
theorem Agrees.step (C : Catalog) (h : w.Agrees) (hfresh : w.fresh call = true) : (w.step C call).Agrees := by
  cases call with
  | setCap now scope overageMinor acknowledged actor =>
    have hgrants : (w.store.step C (.setCap now scope overageMinor acknowledged actor)).grants
        = w.store.grants := by
      simp only [Store.step, settle]
      split
      next cap s' hset =>
        obtain ⟨-, -, -, -, -, -, ⟨-, -, rfl⟩ | ⟨-, -, -, -, ⟨-, rfl⟩ | ⟨-, rfl, -⟩⟩⟩ :=
          setRelaySpendingCap_eq_ok hset
        all_goals rfl
      next => rfl
    exact ⟨fun g hg => h.spendable g (hgrants ▸ hg), fun g hg => h.returned g (hgrants ▸ hg)⟩
  | lease now scope r =>
    have hgrants : (w.store.step C (.lease now scope r)).grants = w.store.grants := by
      simp only [Store.step, settle]
      split
      next x s' hlease =>
        obtain ⟨-, -, -, -, -, rfl⟩ := issueUncappedLease_eq_ok hlease
        rfl
      next => rfl
    exact ⟨fun g hg => h.spendable g (hgrants ▸ hg), fun g hg => h.returned g (hgrants ▸ hg)⟩
  | reserve now scope r idBytes =>
    rw [Drawing.step]
    split
    next g s' hanswer =>
      have hissued := h.reserved_issued hfresh hanswer
      refine h.update (mem_of_reserve hanswer).1 ?_ ?_ (Subset.refl _) ?_
      · obtain ⟨period, cap, -, -, -, -, hcases⟩ := reserveRelayCredits_eq_ok hanswer
        rcases hcases with ⟨-, rfl⟩ | ⟨-, hnew⟩
        · exact fun g' hg' => .inl hg'
        · obtain ⟨-, -, -, -, -, -, -, -, -, hcreate⟩ := reserveNew_eq_ok hnew
          rw [(createGrant_eq_ok hcreate).2.2.1]
          simp
      · rw [CreditGrant.committedBytes, hissued]
      · intro hstate
        cases hissued.symm.trans hstate
    next => exact h
  | surrender account r =>
    rw [Drawing.step]
    split
    next g s' hanswer =>
      obtain ⟨hmem, -, hstate⟩ := mem_of_surrender hanswer
      refine h.update hmem ?_ ?_ (subset_cons_self _ _) fun _ => mem_cons_self
      · obtain ⟨found, consumed, -, -, -, hfound, -, ⟨-, -, rfl⟩ | ⟨-, rfl, rfl⟩⟩ :=
          surrenderRelayCredits_eq_ok hanswer
        · exact fun g' hg' => .inl hg'
        · obtain ⟨l₁, l₂, hold, hnew⟩ := updateFirst_of_find? (find?_of_nodup_map w.store.ids_nodup hfound)
            (f := fun g' => g'.surrender consumed r.digest)
          intro g' hg'
          have hg' : g' ∈ l₁ ++ found.surrender consumed r.digest :: l₂ := hnew ▸ hg'
          rw [hold]
          simp only [mem_append, mem_cons] at hg' ⊢
          tauto
      · rw [CreditGrant.committedBytes, hstate]
    next => exact h

theorem agrees_run (C : Catalog) {calls : List Call} (h : Runs.Along (step C) fresh initial calls = true) :
    (Runs.run (step C) initial calls).Agrees :=
  Runs.along_induction (fun _ _ hfresh hw => hw.step C hfresh)
    ⟨fun _ hg => absurd hg not_mem_nil, fun _ hg => absurd hg not_mem_nil⟩ h

/-- **Returned bytes are spent once.**  In every run in which no request is repeated after its grant has
been surrendered, each grant is issued when it is returned, and the relays of a month may spend what
the store has committed, which is within the budget. -/
theorem returned_spendable_once (C : Catalog) (calls : List Call)
    (h : Runs.Along (step C) fresh initial calls = true) : (∀ before now scope r idBytes later g s,
      calls = before ++ .reserve now scope r idBytes :: later →
      (after C before).reserveRelayCredits C now scope r idBytes = .ok (g, s) → g.state = .issued)
    ∧ ∀ m, (Runs.run (step C) initial calls).spendableIn m = (after C calls).committed m
      ∧ ∀ cap, (after C calls).caps.lookup m = some cap → ∃ schedule budget, Priced C m cap schedule budget
          ∧ (Runs.run (step C) initial calls).spendableIn m ≤ budget := by
  constructor
  · rintro before now scope r idBytes later g s rfl hanswer
    rw [Runs.along_append, Bool.and_eq_true_iff] at h
    obtain ⟨hbefore, hlater⟩ := h
    rw [← run_store] at hanswer
    exact (agrees_run C hbefore).reserved_issued (Bool.and_eq_true_iff.mp hlater).1 hanswer
  · intro m
    have hspend : (Runs.run (step C) initial calls).spendableIn m = (after C calls).committed m := by
      rw [spendableIn, committed, run_store]
      congr 1
      refine map_congr_left fun g hg => (agrees_run C h).spendable g ?_
      rw [run_store]
      exact (mem_filter.mp hg).1
    refine ⟨hspend, fun cap hcap => ?_⟩
    have hsound := sound_after C calls
    obtain ⟨schedule, budget, hpriced⟩ := hsound.priced m cap hcap
    refine ⟨schedule, budget, hpriced, ?_⟩
    rw [hspend, ← ledger_of_cap hcap hpriced]
    exact hsound.within m

def zeroId : Vector UInt8 16 := Vector.replicate 16 0

/-- A cap of seven bytes; a request of five is granted and surrendered with `used` spent. -/
def surrendered (used : Bytes) : List Call :=
  [ .setCap 0 january 7 true (ascii "o"), .reserve 0 january fiveByteRequest zeroId,
    .surrender (ascii "a") ⟨replicate 32 48, ascii "r", ascii "g", ascii "m", used, replicate 64 48⟩ ]

/-- Another request, for all that is left. -/
def otherRequest : Call :=
  .reserve 0 january ⟨ascii "r", ascii "g", ascii "m", ascii "p", 7⟩ (Vector.replicate 16 1)

/-- Two of the five bytes were used, and the other five of the budget go to another request. -/
theorem returned_spendable_once_january :
    (Runs.run (step januaryCatalog) initial (surrendered (ascii "2") ++ [otherRequest])).spendableIn
        (ascii "a", 0) = 7
      ∧ (after januaryCatalog (surrendered (ascii "2") ++ [otherRequest])).committed (ascii "a", 0)
        = 7 := by
  have hspend := ((returned_spendable_once januaryCatalog (surrendered (ascii "2") ++ [otherRequest])
    (by decide +kernel)).2 (ascii "a", 0)).1
  have hcommitted : (after januaryCatalog (surrendered (ascii "2") ++ [otherRequest])).committed
      (ascii "a", 0) = 7 := by decide +kernel
  exact ⟨hspend.trans hcommitted, hcommitted⟩

/-- Nothing was used, and the request is repeated: the surrendered grant is returned once more, all
seven bytes go to another request, and the relays may spend twelve. -/
theorem retried_request_surrendered : (fun a => (a.1.state, a.1.grantedBytes)) <$>
        (after januaryCatalog (surrendered (ascii "0"))).reserveRelayCredits januaryCatalog 0 january
          fiveByteRequest zeroId = .ok (.surrendered, 5)
      ∧ (Runs.run (step januaryCatalog) initial (surrendered (ascii "0")
        ++ [.reserve 0 january fiveByteRequest zeroId, otherRequest])).spendableIn (ascii "a", 0)
          = 12 := by
  decide +kernel

end Drawing

/-! ### Leases -/

def leaseOf (s : Store) : Call → Option (AccountMonth × Time)
  | .lease now scope r =>
    if (s.issueUncappedLease now scope r).isOk then
      some ((scope.account, unixMicro scope.start), now)
    else none
  | _ => none

/-- The leases that calls on an empty store hand out: for which month, and when. -/
def handedOut (C : Catalog) (calls : List Call) : List (AccountMonth × Time) :=
  Runs.trace (step C) leaseOf empty calls

def leaseEnd (now : Time) : ℤ := unixMicro now + RELAY_UNCAPPED_LEASE_US

/-- Each lease is on record until it ends, and has ended when a cap of its month takes effect. -/
structure Fenced (s : Store) (handed : List (AccountMonth × Time)) : Prop where
  recorded : ∀ l ∈ handed, ∃ key x, key.1 = l.1 ∧ s.leases.lookup key = some x ∧ leaseEnd l.2 ≤ x
  ended : ∀ l ∈ handed, ∀ cap, s.caps.lookup l.1 = some cap → leaseEnd l.2 ≤ cap.effectiveAtUS

theorem lease_le_newCap {key : LeaseKey} {x : ℤ} (h : s.leases.lookup key = some x) (endUS : ℤ)
    (version : Bytes) (overageMinor : ℤ) :
    x ≤ (s.newCap now key.1 endUS version overageMinor).effectiveAtUS := by
  have hmem : x ∈ (s.leases.entries.filter fun e => e.1.1 = key.1).map fun e => e.2 :=
    mem_map.mpr ⟨⟨key, x⟩, mem_filter.mpr ⟨AList.mem_lookup_iff.mp h, by simp⟩, rfl⟩
  show x ≤ (s.latestLease key.1).elim (unixMicro now) (max (unixMicro now))
  cases hlatest : s.latestLease key.1 with
  | none =>
    rw [max?_eq_none_iff.mp hlatest] at hmem
    cases hmem
  | some latest => exact ((max?_eq_some_iff.mp hlatest).2 x hmem).trans (le_max_right _ _)

section

variable {handed : List (AccountMonth × Time)} (h : Fenced s handed)
include h

theorem Fenced.putCap {m : AccountMonth} {cap : RelayCap}
    (hcap : ∀ l ∈ handed, l.1 = m → leaseEnd l.2 ≤ cap.effectiveAtUS) : Fenced (s.putCap m cap) handed := by
  refine ⟨h.recorded, fun l hl cap' hcap' => ?_⟩
  by_cases hm : l.1 = m
  · rw [Store.putCap, hm, AList.lookup_insert] at hcap'
    exact Option.some.inj hcap' ▸ hcap l hl hm
  · rw [Store.putCap, AList.lookup_insert_ne hm] at hcap'
    exact h.ended l hl cap' hcap'

theorem Fenced.setCap {overageMinor : ℤ} {acknowledged : Bool} {actor : Bytes} {cap : RelayCap}
    (hset : s.setRelaySpendingCap C now scope overageMinor acknowledged actor = .ok (cap, s')) :
    Fenced s' handed := by
  obtain ⟨period, schedule, -, -, -, -, hcases⟩ := setRelaySpendingCap_eq_ok hset
  rcases hcases with ⟨-, rfl, rfl⟩ | ⟨old, hold, -, -, ⟨-, rfl⟩ | ⟨rfl, rfl, -⟩⟩
  · refine h.putCap fun l hl hm => ?_
    obtain ⟨key, x, hkey, hx, hle⟩ := h.recorded l hl
    rw [← hm, ← hkey]
    exact hle.trans (lease_le_newCap hx _ _ _)
  · exact h
  · exact h.putCap fun l hl hm => h.ended l hl old (hm ▸ hold)

theorem Fenced.putLease {key : LeaseKey} (hnone : s.caps.lookup key.1 = none)
    (hclock : ∀ l ∈ handed, l.2 ≤ now) :
    Fenced (s.putLease key (leaseEnd now)) (handed ++ [(key.1, now)]) := by
  have hnew : (s.putLease key (leaseEnd now)).leases.lookup key = some (leaseEnd now) :=
    AList.lookup_insert _
  constructor
  · intro l hl
    rcases mem_append.mp hl with hl | hl
    · obtain ⟨key', x, hkey', hx, hle⟩ := h.recorded l hl
      by_cases hsame : key' = key
      · -- the row is overwritten with a later end
        exact ⟨key, leaseEnd now, hsame ▸ hkey', hnew,
          Int.add_le_add_right (Int.ediv_le_ediv (by decide) (hclock l hl)) _⟩
      · exact ⟨key', x, hkey', (AList.lookup_insert_ne hsame).trans hx, hle⟩
    · obtain rfl := mem_singleton.mp hl
      exact ⟨key, leaseEnd now, rfl, hnew, le_rfl⟩
  · intro l hl cap hcap
    rcases mem_append.mp hl with hl | hl
    · exact h.ended l hl cap hcap
    · obtain rfl := mem_singleton.mp hl
      cases hnone.symm.trans hcap

theorem Fenced.settle {α : Type} {result : Except Error (α × Store)}
    (hok : ∀ answer s', result = .ok (answer, s') → Fenced s' handed) :
    Fenced (s.settle result) (handed ++ []) := by
  rw [append_nil]
  cases result with
  | error e => exact h
  | ok answer => exact hok answer.1 answer.2 rfl

/-- **One call** keeps the fence, if its lease, if any, is not handed out before the others. -/
theorem Fenced.step {call : Call} (hclock : ∀ l ∈ handed, ∀ l' ∈ s.leaseOf call, l.2 ≤ l'.2) :
    Fenced (s.step C call) (handed ++ (s.leaseOf call).toList) := by
  cases call with
  | setCap now scope overageMinor acknowledged actor =>
    exact h.settle fun cap s' hset => h.setCap hset
  | reserve now scope r idBytes =>
    refine h.settle fun g s' hreserve => ?_
    obtain ⟨period, cap, -, -, -, -, ⟨-, rfl⟩ | ⟨-, hnew⟩⟩ := reserveRelayCredits_eq_ok hreserve
    · exact h
    · obtain ⟨-, -, -, -, -, -, -, -, -, hcreate⟩ := reserveNew_eq_ok hnew
      obtain ⟨hcaps, hleases, -⟩ := createGrant_eq_ok hcreate
      exact ⟨hleases ▸ h.recorded, hcaps ▸ h.ended⟩
  | surrender account r =>
    refine h.settle fun g s' hsurrender => ?_
    obtain ⟨-, -, -, -, -, -, -, ⟨-, -, rfl⟩ | ⟨-, -, rfl⟩⟩ := surrenderRelayCredits_eq_ok hsurrender
    · exact h
    · exact ⟨h.recorded, h.ended⟩
  | lease now scope r =>
    rw [leaseOf] at hclock ⊢
    rw [Store.step]
    cases hlease : s.issueUncappedLease now scope r with
    | error e => exact (append_nil handed).symm ▸ h
    | ok answer =>
      rw [hlease] at hclock
      obtain ⟨period, hperiod, -, hnone, hexpires, hstored⟩ := issueUncappedLease_eq_ok hlease
      rw [startUS_eq hperiod, hexpires] at hstored
      rw [startUS_eq hperiod] at hnone
      show Fenced answer.2 (handed ++ [((scope.account, unixMicro scope.start), now)])
      rw [hstored]
      exact h.putLease hnone fun l hl => hclock l hl _ rfl

end

/-- **Every run** in which leases are handed out in the order of one clock, by induction on its calls. -/
theorem fenced_run (C : Catalog) {calls : List Call}
    (hclock : ((handedOut C calls).map Prod.snd).Pairwise (· ≤ ·)) :
    Fenced (Runs.run (Store.step C) empty calls) (handedOut C calls) := by
  induction calls using List.reverseRecOn with
  | nil => exact ⟨by simp [handedOut, Runs.trace], by simp [handedOut, Runs.trace]⟩
  | append_singleton calls call ih =>
    rw [handedOut, Runs.trace_concat] at hclock ⊢
    rw [map_append, pairwise_append] at hclock
    rw [Runs.run_concat]
    refine (ih hclock.1).step fun l hl l' hl' => ?_
    exact hclock.2.2 l.2 (mem_map_of_mem hl) l'.2 (mem_map_of_mem (Option.mem_toList.mpr hl'))

/-- **Leases under a cap.**  While the cap of a month is in effect all leases of the account have ended,
exactly if those for other months have: the cap does not wait for them. -/
theorem no_uncapped_lease_iff (C : Catalog) (calls : List Call)
    (hclock : ((handedOut C calls).map Prod.snd).Pairwise (· ≤ ·)) (account : Bytes) (startUS t : ℤ)
    (cap : RelayCap) (hcap : (Runs.run (Store.step C) empty calls).caps.lookup (account, startUS) = some cap)
    (heffective : cap.effectiveAtUS ≤ t) : (∀ l ∈ handedOut C calls, l.1.1 = account → leaseEnd l.2 ≤ t)
      ↔ ∀ l ∈ handedOut C calls, l.1.1 = account → l.1.2 ≠ startUS → leaseEnd l.2 ≤ t := by
  constructor
  · intro hall l hl haccount _
    exact hall l hl haccount
  · intro hothers l hl haccount
    by_cases hstart : l.1.2 = startUS
    · have hmonth : l.1 = (account, startUS) := Prod.ext haccount hstart
      exact ((fenced_run C hclock).ended l hl cap (hmonth ▸ hcap)).trans heffective
    · exact hothers l hl haccount hstart

def lateLease (now : Time) : Call := .lease now january fiveByteRequest

theorem january_lease_ended :
    let calls := [lateLease 0, .setCap 2000 january 7 true (ascii "o")]
    handedOut januaryCatalog calls ≠ []
      ∧ ∀ l ∈ handedOut januaryCatalog calls, l.1.1 = ascii "a" → leaseEnd l.2 ≤ 15000000 :=
  ⟨by decide +kernel, (no_uncapped_lease_iff januaryCatalog _ (by decide +kernel) (ascii "a") 0
    15000000 (januaryCap 7) (by decide +kernel) (by decide)).mpr (by decide +kernel)⟩

def february : Scope := ⟨ascii "a", JANUARY_END_US * 1000, 5097600000000000⟩

def twoMonths : Catalog where
  assignments _ start :=
    if start = 0 then some ⟨JANUARY_END_US, ascii "v1"⟩ else some ⟨5097600000000, ascii "v1"⟩
  schedules version := if version = ascii "v1" then some centPerByte else none

/-- The cap of February is set in January, and a lease is taken out five seconds before the month ends:
it is live in February. -/
theorem january_lease_in_february :
    let calls := [.setCap 0 february 0 true (ascii "o"),
      lateLease ((JANUARY_END_US - 5000000) * 1000)]
    ((Runs.run (Store.step twoMonths) empty calls).caps.lookup (ascii "a", JANUARY_END_US)).map
        RelayCap.effectiveAtUS = some 0 ∧ ∃ l ∈ handedOut twoMonths calls, l.1.1 = ascii "a"
        ∧ JANUARY_END_US + 10000000 ≤ leaseEnd l.2 := by
  decide +kernel

end Karst.Billing.Store
