import Karst.Foundations.Ledgers
import Karst.Foundations.Runs
import Karst.Billing.Caps

/-!
# The byte budget

The grants of a month, against the bytes that its cap buys.  For each account and month the store
keeps a ledger, and every call is a move of that ledger.
-/

namespace Karst.Billing

open Except Ledger.Move CreditGrant
open List hiding Vector

def Catalog.budgetOf (C : Catalog) (cap : RelayCap) : ℕ :=
  (C.schedule cap.scheduleVersion >>= fun schedule =>
    maxRelayBytesForOverage schedule cap.overageMinor).toOption.getD 0

theorem Priced.budgetOf_eq {C : Catalog} {m : AccountMonth} {cap : RelayCap}
    {schedule : RateSchedule} {budget : ℕ} (h : Priced C m cap schedule budget) :
    C.budgetOf cap = budget := by
  rw [Catalog.budgetOf, h.loaded, ok_bind, h.buys]
  rfl

namespace Store

variable {C : Catalog} {s s' : Store}

/-! ### Ledgers -/

/-- What the grants of a month hold of the budget; a month without a cap has none. -/
def ledger (C : Catalog) (s : Store) (m : AccountMonth) : Ledger ℕ where
  budget := (s.caps.lookup m).elim 0 C.budgetOf
  held := (s.grantsOf m).map CreditGrant.committedBytes

theorem ledger_committed (C : Catalog) (s : Store) (m : AccountMonth) :
    (s.ledger C m).committed = s.committed m := rfl

variable {m : AccountMonth}

theorem ledger_of_cap {cap : RelayCap} {schedule : RateSchedule} {budget : ℕ}
    (hcap : s.caps.lookup m = some cap) (h : Priced C m cap schedule budget) :
    (s.ledger C m).budget = budget := by
  show (s.caps.lookup m).elim 0 C.budgetOf = budget
  rw [hcap]
  exact h.budgetOf_eq

theorem ledger_congr (hcap : s'.caps.lookup m = s.caps.lookup m)
    (hgrants : s'.grantsOf m = s.grantsOf m) : s'.ledger C m = s.ledger C m := by
  rw [ledger, ledger, hcap, hgrants]

variable {g : CreditGrant}

theorem grantsOf_createGrant (h : s.createGrant g = .ok s') (m : AccountMonth) :
    s'.grantsOf m = s.grantsOf m ++ if g.month = m then [g] else [] := by
  obtain ⟨-, -, hgrants, -⟩ := createGrant_eq_ok h
  rw [grantsOf, hgrants, filter_append]
  congr 1
  by_cases hm : g.month = m
  · rw [if_pos hm, filter_cons_of_pos (by simpa using hm), filter_nil]
  · rw [if_neg hm, filter_cons_of_neg (by simpa using hm), filter_nil]

theorem grantsOf_saveSurrender
    (hfound : s.grants.find? (fun g' => g'.grantId = g.grantId) = some g) (consumed : ℕ)
    (digest : Bytes) : (∃ l₁ l₂, s.grantsOf g.month = l₁ ++ g :: l₂
        ∧ (s.saveSurrender g.grantId consumed digest).grantsOf g.month
          = l₁ ++ g.surrender consumed digest :: l₂)
      ∧ ∀ m ≠ g.month, (s.saveSurrender g.grantId consumed digest).grantsOf m = s.grantsOf m := by
  obtain ⟨l₁, l₂, hold, hnew⟩ := updateFirst_of_find? hfound (f := fun g' => g'.surrender consumed digest)
  have hgrants : (s.saveSurrender g.grantId consumed digest).grants
      = l₁ ++ g.surrender consumed digest :: l₂ := hnew
  constructor
  · refine ⟨l₁.filter fun g' => g'.month = g.month, l₂.filter fun g' => g'.month = g.month, ?_, ?_⟩
    · rw [grantsOf, hold, filter_append, filter_cons_of_pos (by simp)]
    · rw [grantsOf, hgrants, filter_append, filter_cons_of_pos (by simp)]
  · intro m hm
    simp [grantsOf, hgrants, hold, hm.symm]

/-! ### The invariant -/

/-- Every cap is priced, and no budget is oversubscribed. -/
structure Sound (C : Catalog) (s : Store) : Prop where
  priced : ∀ m cap, s.caps.lookup m = some cap → ∃ schedule budget, Priced C m cap schedule budget
  within : ∀ m, (s.ledger C m).Within

theorem sound_empty (C : Catalog) : Sound C empty := by
  refine ⟨fun m cap h => ?_, fun m => ?_⟩
  · cases h
  · exact Nat.zero_le _

theorem move_putCap {cap : RelayCap} {schedule : RateSchedule} {budget : ℕ}
    (hpriced : Priced C m cap schedule budget) (hfits : s.committed m ≤ budget)
    (m' : AccountMonth) : Ledger.Move (s.ledger C m') ((s.putCap m cap).ledger C m') := by
  by_cases hm : m' = m
  · subst hm
    have hcap : (s.putCap m' cap).caps.lookup m' = some cap := AList.lookup_insert s.caps
    have hledger : (s.putCap m' cap).ledger C m' = ⟨budget, (s.ledger C m').held⟩ := by
      rw [← ledger_of_cap hcap hpriced]
      rfl
    rw [hledger]
    exact rebudget hfits
  · have hcap : (s.putCap m cap).caps.lookup m' = s.caps.lookup m' := AList.lookup_insert_ne hm
    rw [ledger_congr hcap rfl]
    exact keep _

/-- **The store refines its ledgers.**  Whatever a call does, it is a move of every ledger. -/
theorem move_of_does (h : s.Sound C) (hdoes : Does C s s') (m : AccountMonth) :
    Ledger.Move (s.ledger C m) (s'.ledger C m) := by
  cases hdoes with
  | nothing => exact keep _
  | @enable m' cap schedule budget hnone hpriced =>
    -- without a cap nothing is committed
    have hzero : s.committed m' ≤ (s.caps.lookup m').elim 0 C.budgetOf := h.within m'
    rw [hnone] at hzero
    exact move_putCap hpriced (hzero.trans (Nat.zero_le budget)) m
  | @change m' old cap schedule budget hfound hversion hpriced hfits =>
    refine move_putCap hpriced ?_ m
    rcases hfits with hraise | hfits
    · obtain ⟨schedule₀, budget₀, hpriced₀⟩ := h.priced m' old hfound
      have hsame : schedule₀ = schedule := by
        have hloaded := hpriced.loaded
        rw [hversion, hpriced₀.loaded] at hloaded
        exact ok.inj hloaded
      have hold : s.committed m' ≤ budget₀ := by
        rw [← ledger_of_cap hfound hpriced₀]
        exact h.within m'
      subst hsame
      exact hold.trans (maxRelayBytesForOverage_mono hpriced₀.buys hpriced.buys hraise)
    · exact hfits
  | @grant _ cap g schedule budget hfound hpriced hissued hfits hcreated =>
    obtain ⟨hcaps, -⟩ := createGrant_eq_ok hcreated
    have hcap : s'.caps.lookup m = s.caps.lookup m := by rw [hcaps]
    by_cases hm : g.month = m
    · subst hm
      have hheld : s'.ledger C g.month
          = ⟨(s.ledger C g.month).budget, (s.ledger C g.month).held ++ [g.grantedBytes]⟩ := by
        show Ledger.mk _ _ = Ledger.mk _ _
        rw [hcap, grantsOf_createGrant hcreated, if_pos rfl, map_append, map_singleton,
          committedBytes, hissued]
        rfl
      rw [hheld]
      refine commit ?_
      rw [ledger_committed, ledger_of_cap hfound hpriced]
      exact hfits
    · have hgrants := grantsOf_createGrant hcreated m
      rw [if_neg hm, append_nil] at hgrants
      rw [ledger_congr hcap hgrants]
      exact keep _
  | @surrender g consumed digest hfound hissued hfits =>
    obtain ⟨⟨l₁, l₂, hold, hnew⟩, hother⟩ := grantsOf_saveSurrender hfound consumed digest
    by_cases hm : m = g.month
    · subst hm
      have hbefore : s.ledger C g.month = ⟨(s.ledger C g.month).budget,
          l₁.map committedBytes ++ g.grantedBytes :: l₂.map committedBytes⟩ := by
        show Ledger.mk _ _ = Ledger.mk _ _
        rw [hold, map_append, map_cons, committedBytes, hissued]
        rfl
      have hafter : (s.saveSurrender g.grantId consumed digest).ledger C g.month
          = ⟨(s.ledger C g.month).budget, l₁.map committedBytes ++ consumed :: l₂.map committedBytes⟩ := by
        show Ledger.mk _ _ = Ledger.mk _ _
        rw [hnew, map_append, map_cons]
        rfl
      rw [hbefore, hafter]
      exact release hfits
    · have hsame : (s.saveSurrender g.grantId consumed digest).ledger C m = s.ledger C m :=
        ledger_congr rfl (hother m hm)
      rw [hsame]
      exact keep _
  | lease => exact keep _

theorem priced_of_does (h : s.Sound C) (hdoes : Does C s s') (m : AccountMonth) (cap : RelayCap)
    (hcap : s'.caps.lookup m = some cap) : ∃ schedule budget, Priced C m cap schedule budget := by
  have hput {m' : AccountMonth} {cap' : RelayCap} {schedule : RateSchedule} {budget : ℕ}
      (hpriced : Priced C m' cap' schedule budget) (hcap : (s.putCap m' cap').caps.lookup m = some cap) :
      ∃ schedule budget, Priced C m cap schedule budget := by
    rcases lookup_insert_eq_some hcap with ⟨rfl, rfl⟩ | hold
    · exact ⟨schedule, budget, hpriced⟩
    · exact h.priced m cap hold
  cases hdoes with
  | nothing => exact h.priced m cap hcap
  | enable _ hpriced => exact hput hpriced hcap
  | change _ _ hpriced _ => exact hput hpriced hcap
  | grant _ _ _ _ hcreated =>
    obtain ⟨hcaps, -⟩ := createGrant_eq_ok hcreated
    exact h.priced m cap (by rw [← hcaps, hcap])
  | surrender => exact h.priced m cap hcap
  | lease => exact h.priced m cap hcap

theorem sound_step (C : Catalog) (s : Store) (call : Call) (h : s.Sound C) : (s.step C call).Sound C :=
  ⟨priced_of_does h (does_step C s call),
    fun m => (move_of_does h (does_step C s call) m).within (h.within m)⟩

/-! ### Calls that are made again -/

/-- Grants stay, with what identifies them and what they granted; surrendered ones stay as they
are. -/
def Extends (s s' : Store) : Prop :=
  ∀ g ∈ s.grants, ∃ g' ∈ s'.grants, g'.grantId = g.grantId ∧ g'.requestKey = g.requestKey
    ∧ g'.grantedBytes = g.grantedBytes ∧ (g.state = .surrendered → g' = g)

theorem Extends.refl (s : Store) : Extends s s :=
  fun g hg => ⟨g, hg, rfl, rfl, rfl, fun _ => rfl⟩

theorem Extends.trans {s'' : Store} (h : Extends s s') (h' : Extends s' s'') : Extends s s'' := by
  intro g hg
  obtain ⟨g₁, hg₁, hid₁, hkey₁, hgranted₁, hkept₁⟩ := h g hg
  obtain ⟨g₂, hg₂, hid₂, hkey₂, hgranted₂, hkept₂⟩ := h' g₁ hg₁
  refine ⟨g₂, hg₂, hid₂.trans hid₁, hkey₂.trans hkey₁, hgranted₂.trans hgranted₁, fun hstate => ?_⟩
  obtain rfl := hkept₁ hstate
  exact hkept₂ hstate

theorem extends_of_does (hdoes : Does C s s') : Extends s s' := by
  cases hdoes with
  | nothing => exact Extends.refl s
  | enable => exact Extends.refl s
  | change => exact Extends.refl s
  | grant _ _ _ _ hcreated =>
    obtain ⟨-, -, hgrants, -⟩ := createGrant_eq_ok hcreated
    intro g hg
    exact ⟨g, by rw [hgrants]; exact mem_append_left _ hg, rfl, rfl, rfl, fun _ => rfl⟩
  | @surrender g₀ consumed digest hfound hissued _ =>
    obtain ⟨l₁, l₂, hold, hnew⟩ := updateFirst_of_find? hfound (f := fun g' => g'.surrender consumed digest)
    have hgrants : (s.saveSurrender g₀.grantId consumed digest).grants
        = l₁ ++ g₀.surrender consumed digest :: l₂ := hnew
    intro g hg
    rw [hold, mem_append, mem_cons] at hg
    rw [hgrants]
    rcases hg with hg | rfl | hg
    · exact ⟨g, mem_append_left _ hg, rfl, rfl, rfl, fun _ => rfl⟩
    · refine ⟨g.surrender consumed digest, by simp, rfl, rfl, rfl, fun hstate => ?_⟩
      rw [hissued] at hstate
      cases hstate
    · exact ⟨g, by simp [hg], rfl, rfl, rfl, fun _ => rfl⟩
  | lease => exact Extends.refl s

def after (C : Catalog) (calls : List Call) : Store := Runs.run (step C) empty calls

theorem sound_after (C : Catalog) (calls : List Call) : (after C calls).Sound C :=
  Runs.run_induction (sound_step C) (sound_empty C) calls

theorem extends_after (C : Catalog) (before later : List Call) :
    Extends (after C before) (after C (before ++ later)) := by
  rw [after, after, Runs.run_append]
  exact Runs.run_rel Extends.refl (fun _ _ _ => Extends.trans)
    (fun s call => extends_of_does (does_step C s call)) _ later

theorem extends_call {before later : List Call} {call : Call}
    (h : (after C before).step C call = s) : Extends s (after C (before ++ call :: later)) := by
  have hstep : after C (before ++ [call]) = s := by
    rw [after, Runs.run_concat]
    exact h
  have hextends := extends_after C (before ++ [call]) later
  rwa [append_assoc, singleton_append, hstep] at hextends

theorem reserve_again {scope : Scope} {r : CreditRequest} (hg : g ∈ s.grants)
    (hkey : g.requestKey = r.key (scope.account, unixMicro scope.start)) (now : Time)
    (idBytes : Vector UInt8 16) : s.step C (.reserve now scope r idBytes) = s
      ∧ ∀ g' s', s.reserveRelayCredits C now scope r idBytes = .ok (g', s') → g' = g := by
  have hanswer (g' : CreditGrant) (s' : Store)
      (h : s.reserveRelayCredits C now scope r idBytes = .ok (g', s')) : g' = g ∧ s' = s := by
    obtain ⟨period, cap, hperiod, -, -, -, hcases⟩ := reserveRelayCredits_eq_ok h
    obtain rfl := ok.inj (guard_eq_ok.mp (capMonth_eq_ok.mp hperiod).2.1).2
    have hfound := find?_of_nodup_map s.requests_nodup hg
    rw [hkey] at hfound
    rcases hcases with ⟨hsome, rfl⟩ | ⟨hnone, -⟩
    · exact ⟨Option.some.inj (hsome.symm.trans hfound), rfl⟩
    · cases hnone.symm.trans hfound
  refine ⟨?_, fun g' s' h => (hanswer g' s' h).1⟩
  show s.settle (s.reserveRelayCredits C now scope r idBytes) = s
  cases h : s.reserveRelayCredits C now scope r idBytes with
  | error e => rfl
  | ok answer => exact (hanswer answer.1 answer.2 h).2

theorem surrender_again {account : Bytes} {r : CreditSurrender} (hg : g ∈ s.grants)
    (hid : g.grantId = r.grantId) (hstate : g.state = .surrendered) :
    s.step C (.surrender account r) = s := by
  show s.settle (s.surrenderRelayCredits account r) = s
  cases h : s.surrenderRelayCredits account r with
  | error e => rfl
  | ok answer =>
    obtain ⟨found, consumed, -, hid', -, hmem, -, hcases⟩ := surrenderRelayCredits_eq_ok h
    have hfound := find?_of_nodup_map s.ids_nodup hg
    rw [hid, ← hid', find?_of_nodup_map s.ids_nodup hmem] at hfound
    obtain rfl := Option.some.inj hfound
    rcases hcases with ⟨-, -, hs⟩ | ⟨hissued, -⟩
    · exact hs
    · rw [hstate] at hissued
      cases hissued

theorem mem_of_reserve {now : Time} {scope : Scope} {r : CreditRequest}
    {idBytes : Vector UInt8 16} (h : s.reserveRelayCredits C now scope r idBytes = .ok (g, s')) :
    g ∈ s'.grants ∧ g.requestKey = r.key (scope.account, unixMicro scope.start) := by
  obtain ⟨period, cap, hperiod, -, -, -, hcases⟩ := reserveRelayCredits_eq_ok h
  obtain rfl := ok.inj (guard_eq_ok.mp (capMonth_eq_ok.mp hperiod).2.1).2
  rcases hcases with ⟨hfound, rfl⟩ | ⟨-, hnew⟩
  · exact ⟨mem_of_find?_eq_some hfound, by simpa using find?_some hfound⟩
  · obtain ⟨row, schedule, budget, -, -, -, -, -, rfl, hcreated⟩ := reserveNew_eq_ok hnew
    obtain ⟨-, -, hgrants, -⟩ := createGrant_eq_ok hcreated
    exact ⟨by rw [hgrants]; simp, rfl⟩

theorem mem_of_surrender {account : Bytes} {r : CreditSurrender}
    (h : s.surrenderRelayCredits account r = .ok (g, s')) :
    g ∈ s'.grants ∧ g.grantId = r.grantId ∧ g.state = .surrendered := by
  obtain ⟨found, consumed, -, hid, -, hmem, -, hcases⟩ := surrenderRelayCredits_eq_ok h
  rcases hcases with ⟨hstate, rfl, rfl⟩ | ⟨-, rfl, rfl⟩
  · exact ⟨hmem, hid, hstate⟩
  · obtain ⟨l₁, l₂, -, hnew⟩ := updateFirst_of_find? (find?_of_nodup_map s.ids_nodup hmem)
      (f := fun g' => g'.surrender consumed r.digest)
    have hgrants : (s.saveSurrender found.grantId consumed r.digest).grants
        = l₁ ++ found.surrender consumed r.digest :: l₂ := hnew
    exact ⟨by rw [hgrants]; simp, hid, rfl⟩

/-- **The byte budget is never oversubscribed**, and it is exact.  A call that is made again changes
nothing. -/
theorem budget_never_oversubscribed (C : Catalog) (calls : List Call) :
    (∀ m cap, (after C calls).caps.lookup m = some cap →
      ∃ schedule budget, Priced C m cap schedule budget ∧ (after C calls).committed m ≤ budget)
    ∧ (∀ m, (after C calls).caps.lookup m = none → (after C calls).committed m = 0)
    ∧ (∀ before now scope r idBytes later g s, calls = before ++ .reserve now scope r idBytes :: later →
      (after C before).reserveRelayCredits C now scope r idBytes = .ok (g, s) →
      ∀ now' scope' r' idBytes', scope'.account = scope.account →
      unixMicro scope'.start = unixMicro scope.start → r'.relayId = r.relayId →
      r'.generation = r.generation → r'.requestId = r.requestId →
        (after C calls).step C (.reserve now' scope' r' idBytes') = after C calls
        ∧ ∀ g' s', (after C calls).reserveRelayCredits C now' scope' r' idBytes' = .ok (g', s') →
          g'.grantId = g.grantId ∧ g'.grantedBytes = g.grantedBytes)
    ∧ (∀ before account r later g s, calls = before ++ .surrender account r :: later →
      (after C before).surrenderRelayCredits account r = .ok (g, s) → ∀ account' r', r'.grantId = r.grantId →
        (after C calls).step C (.surrender account' r') = after C calls) ∧ ∀ schedule overageMinor budget,
      maxRelayBytesForOverage schedule overageMinor = .ok budget →
      ∀ bytes, relayCharge bytes schedule ≤ overageMinor ↔ bytes ≤ budget := by
  have hsound := sound_after C calls
  refine ⟨?_, ?_, ?_, ?_, fun _ _ _ => relayCharge_le_iff⟩
  · intro m cap hcap
    obtain ⟨schedule, budget, hpriced⟩ := hsound.priced m cap hcap
    refine ⟨schedule, budget, hpriced, ?_⟩
    rw [← ledger_of_cap hcap hpriced]
    exact hsound.within m
  · intro m hnone
    have hzero : (after C calls).committed m ≤ ((after C calls).caps.lookup m).elim 0 C.budgetOf :=
      hsound.within m
    rw [hnone] at hzero
    exact Nat.le_zero.mp hzero
  · intro before now scope r idBytes later g s hcalls hanswer now' scope' r' idBytes' haccount hstart
      hrelay hgeneration hrequest
    subst hcalls
    have hstep : (after C before).step C (.reserve now scope r idBytes) = s := by
      rw [step, hanswer, settle]
    obtain ⟨hmem, hkey⟩ := mem_of_reserve hanswer
    obtain ⟨g₁, hg₁, hid₁, hkey₁, hgranted₁, -⟩ := extends_call hstep g hmem
    have hsame : g₁.requestKey = r'.key (scope'.account, unixMicro scope'.start) := by
      rw [hkey₁, hkey, CreditRequest.key, CreditRequest.key, haccount, hstart, hrelay, hgeneration, hrequest]
    obtain ⟨hunchanged, hgrant⟩ := reserve_again (C := C) hg₁ hsame now' idBytes'
    refine ⟨hunchanged, fun g' s' h => ?_⟩
    obtain rfl := hgrant g' s' h
    exact ⟨hid₁, hgranted₁⟩
  · intro before account r later g s hcalls hanswer account' r' hid'
    subst hcalls
    have hstep : (after C before).step C (.surrender account r) = s := by
      rw [step, hanswer, settle]
    obtain ⟨hmem, hid, hstate⟩ := mem_of_surrender hanswer
    obtain ⟨g₁, hg₁, hid₁, -, -, hkept⟩ := extends_call hstep g hmem
    obtain rfl := hkept hstate
    exact surrender_again hg₁ (hid.trans hid'.symm) hstate

end Store

end Karst.Billing
