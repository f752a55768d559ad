import Karst.Relay.Credits

/-!
# Conservation of credits

Every grant is followed from its installation to its surrender.  What is charged along a run is
recorded by serial number; the controller's counters are compared with that record.
-/

namespace Karst.Relay

open Option CreditGrant
open List hiding Vector

def charged (charges : List (ℕ × ℕ)) (serial : ℕ) : ℕ :=
  ((charges.filter fun c => c.1 = serial).map Prod.snd).sum

theorem charged_append (charges charges' : List (ℕ × ℕ)) (serial : ℕ) :
    charged (charges ++ charges') serial = charged charges serial + charged charges' serial := by
  rw [charged, filter_append, map_append, sum_append]
  rfl

theorem charged_of_forall_ne {charges : List (ℕ × ℕ)} {serial : ℕ}
    (h : ∀ c ∈ charges, c.1 ≠ serial) : charged charges serial = 0 := by
  have hnone : charges.filter (fun c => c.1 = serial) = [] := by
    rw [filter_eq_nil_iff]
    intro c hc
    simpa using h c hc
  rw [charged, hnone]
  rfl

namespace Controller

section

variable {opened : List Opened} {charges : List (ℕ × ℕ)}

/-- A grant that is held for a mapping, against the record. -/
def Accounted (opened : List Opened) (charges : List (ℕ × ℕ)) (k : MappingKey) (g : CreditGrant) :
    Prop :=
  ∃ o, opened[g.serial]? = some o ∧ o.key = k ∧ g.consumed = o.grant.consumed + charged charges g.serial
    ∧ g.consumed + g.remaining = o.grant.consumed + o.grant.remaining ∧ g.validUntil = o.validUntil
    ∧ g.toGrantIds = o.grant.toGrantIds

def Paid (opened : List Opened) (charges : List (ℕ × ℕ)) (x : SurrenderGrant) : Prop :=
  ∃ o, opened[x.serial]? = some o ∧ x.consumed = o.grant.consumed + charged charges x.serial
    ∧ x.consumed ≤ o.grant.consumed + o.grant.remaining ∧ x.toGrantIds = o.grant.toGrantIds

variable {k : MappingKey} {g : CreditGrant}

variable (h : Accounted opened charges k g)
include h

theorem Accounted.serial_lt : g.serial < opened.length := by
  obtain ⟨o, ho, -⟩ := h
  exact (List.getElem?_eq_some_iff.mp ho).1

theorem Accounted.key_unique {k' : MappingKey} {g' : CreditGrant} (h' : Accounted opened charges k' g')
    (hserial : g.serial = g'.serial) : k = k' := by
  obtain ⟨o, ho, hk, -⟩ := h
  obtain ⟨o', ho', hk', -⟩ := h'
  rw [hserial, ho'] at ho
  rw [← hk, ← hk', some.inj ho]

theorem Accounted.open (o : Opened) : Accounted (opened ++ [o]) charges k g := by
  obtain ⟨o', ho', hrest⟩ := h
  exact ⟨o', getElem?_concat ho' o, hrest⟩

omit h

theorem Paid.open {x : SurrenderGrant} (h : Paid opened charges x) (o : Opened) :
    Paid (opened ++ [o]) charges x := by
  obtain ⟨o', ho', hrest⟩ := h
  exact ⟨o', getElem?_concat ho' o, hrest⟩

theorem Accounted.other (h : Accounted opened charges k g) {more : List (ℕ × ℕ)}
    (hmore : ∀ c ∈ more, c.1 ≠ g.serial) : Accounted opened (charges ++ more) k g := by
  obtain ⟨o, ho, hk, hconsumed, hrest⟩ := h
  refine ⟨o, ho, hk, ?_, hrest⟩
  rw [charged_append, charged_of_forall_ne hmore]
  exact hconsumed

theorem Paid.other {x : SurrenderGrant} (h : Paid opened charges x) {more : List (ℕ × ℕ)}
    (hmore : ∀ c ∈ more, c.1 ≠ x.serial) : Paid opened (charges ++ more) x := by
  obtain ⟨o, ho, hconsumed, hle⟩ := h
  refine ⟨o, ho, ?_, hle⟩
  rw [charged_append, charged_of_forall_ne hmore]
  exact hconsumed

include h

theorem Accounted.surrender : Paid opened charges g.surrender := by
  obtain ⟨o, ho, -, hconsumed, htotal, -, hids⟩ := h
  exact ⟨o, ho, hconsumed, htotal ▸ Nat.le_add_right g.consumed g.remaining, hids⟩

theorem Accounted.spend {bytes : ℕ} (hbytes : bytes ≤ g.remaining) :
    Accounted opened (charges ++ [(g.serial, bytes)]) k (g.spend bytes) := by
  obtain ⟨o, ho, hk, hconsumed, htotal, hvalid, hids⟩ := h
  refine ⟨o, by rw [spend_serial, ho], hk, ?_, ?_, ?_, ?_⟩
  · have hsingle : charged [(g.serial, bytes)] g.serial = bytes := by simp [charged]
    rw [spend_consumed bytes g hbytes, spend_serial, charged_append, hsingle, hconsumed, Nat.add_assoc]
  · rw [spend_total, htotal]
  · rw [spend_validUntil, hvalid]
  · rw [spend_ids, hids]

end

/-- The counters against the record: of the grants that were installed, and of what was charged. -/
structure Kept (s : Controller) (opened : List Opened) (charges : List (ℕ × ℕ)) : Prop where
  count : opened.length = s.installed
  known : ∀ c ∈ charges, c.1 < opened.length
  held : ∀ k, ∀ g ∈ s.queue k, Accounted opened charges k g
  distinct : ∀ k, ((s.queue k).map CreditGrant.serial).Nodup
  paid : ∀ x ∈ s.surrenders, Paid opened charges x
  once : (s.surrenders.map SurrenderGrant.serial).Nodup
  gone : ∀ x ∈ s.surrenders, ∀ k, ∀ g ∈ s.queue k, g.serial ≠ x.serial

section

variable {s s' : Controller} {opened : List Opened} {charges : List (ℕ × ℕ)}

variable (h : s.Kept opened charges)
include h

theorem Kept.of_sublist (hsurrenders : s'.surrenders = s.surrenders)
    (hinstalled : s'.installed = s.installed) (hqueue : ∀ k, (s'.queue k).Sublist (s.queue k)) :
    s'.Kept opened charges := by
  refine ⟨h.count.trans hinstalled.symm, h.known, ?_, ?_, ?_, ?_, ?_⟩
  · exact fun k g hg => h.held k g ((hqueue k).subset hg)
  · exact fun k => (h.distinct k).sublist ((hqueue k).map serial)
  · rw [hsurrenders]
    exact h.paid
  · rw [hsurrenders]
    exact h.once
  · rw [hsurrenders]
    exact fun x hx k g hg => h.gone x hx k g ((hqueue k).subset hg)

theorem Kept.install {mapping : UsageMapping} {validUntil : ℕ} {grant : ParsedGrant}
    (hqueue : ∀ k, s'.queue k = if k = mapping.creditKey then s.queue mapping.creditKey
      ++ (if s.now < validUntil then [s.newGrant validUntil grant] else []) else s.queue k)
    (hsurrenders : s'.surrenders = s.surrenders) (hinstalled : s'.installed = s.installed + 1) :
    s'.Kept (opened ++ [⟨mapping.creditKey, grant, validUntil⟩]) charges := by
  have hserial : (s.newGrant validUntil grant).serial = opened.length := h.count.symm
  -- every grant is an old one of its mapping, or the new one
  have hmem (k : MappingKey) (g : CreditGrant) (hg : g ∈ s'.queue k) :
      g ∈ s.queue k ∨ k = mapping.creditKey ∧ g = s.newGrant validUntil grant := by
    rw [hqueue] at hg
    split at hg
    · rename_i hk
      rw [hk]
      rcases mem_append.mp hg with hg | hg
      · exact .inl hg
      · split at hg
        · exact .inr ⟨rfl, mem_singleton.mp hg⟩
        · cases hg
    · exact .inl hg
  refine ⟨?_, ?_, ?_, ?_, ?_, ?_, ?_⟩
  · rw [length_append, length_singleton, h.count, hinstalled]
  · intro c hc
    rw [length_append]
    exact Nat.lt_add_right _ (h.known c hc)
  · intro k g hg
    rcases hmem k g hg with hold | ⟨rfl, rfl⟩
    · exact (h.held k g hold).open _
    · have hnone : charged charges (s.newGrant validUntil grant).serial = 0 := by
        rw [hserial]
        exact charged_of_forall_ne fun c hc => Nat.ne_of_lt (h.known c hc)
      refine ⟨_, by rw [hserial, getElem?_concat_length], rfl, ?_, rfl, rfl, rfl⟩
      rw [hnone]
      rfl
  · intro k
    rw [hqueue]
    split
    · split
      · rw [map_append]
        refine nodup_concat (h.distinct _) ?_
        intro hserials
        obtain ⟨g, hg, hsame⟩ := mem_map.mp hserials
        exact absurd (h.held _ g hg).serial_lt (by rw [hsame, hserial]; exact Nat.lt_irrefl _)
      · rw [append_nil]
        exact h.distinct _
    · exact h.distinct k
  · rw [hsurrenders]
    exact fun x hx => (h.paid x hx).open _
  · rw [hsurrenders]
    exact h.once
  · rw [hsurrenders]
    intro x hx k g hg
    rcases hmem k g hg with hold | ⟨-, rfl⟩
    · exact h.gone x hx k g hold
    · obtain ⟨o, ho, -⟩ := h.paid x hx
      rw [hserial]
      exact Nat.ne_of_gt (List.getElem?_eq_some_iff.mp ho).1

omit h

variable {k : MappingKey}

theorem mem_queue_of_mem_live {g : CreditGrant} (h : g ∈ s.live k) :
    g ∈ s.queue k ∧ s.now < g.validUntil := by
  obtain ⟨hg, hvalid⟩ := mem_filter.mp h
  exact ⟨hg, of_decide_eq_true hvalid⟩

include h

theorem Kept.charge {bytes : ℕ} {more : List (ℕ × ℕ)}
    (hmore : more = ((payer bytes (s.live k)).map fun g => (g.serial, bytes)).toList) :
    (∀ g ∈ charge bytes (s.live k), Accounted opened (charges ++ more) k g)
      ∧ ∀ c ∈ more, ∃ g ∈ s.queue k, g.serial = c.1 := by
  have hlive : ∀ g ∈ s.live k, Accounted opened charges k g :=
    fun g hg => h.held k g (mem_queue_of_mem_live hg).1
  cases hpayer : payer bytes (s.live k) with
  | none =>
    rw [hpayer, map_none, toList_none] at hmore
    rw [charge_of_payer_none hpayer, hmore, append_nil]
    exact ⟨hlive, by simp⟩
  | some p =>
    obtain ⟨hbytes, l₁, l₂, hsplit, hcharge⟩ := payer_eq_some hpayer
    have hdistinct : ((s.live k).map serial).Nodup :=
      (h.distinct k).sublist (filter_sublist.map serial)
    rw [hsplit] at hlive hdistinct
    rw [map_append, map_cons, nodup_middle, nodup_cons, ← map_append] at hdistinct
    rw [hpayer, map_some, toList_some] at hmore
    rw [hcharge, hmore]
    have hother (g : CreditGrant) (hg : g ∈ l₁ ++ l₂) :
        Accounted opened (charges ++ [(p.serial, bytes)]) k g := by
      refine (hlive g ?_).other ?_
      · exact perm_middle.symm.subset (mem_cons_of_mem p hg)
      · intro c hc
        rw [mem_singleton.mp hc]
        intro hserial
        exact hdistinct.1 (mem_map.mpr ⟨g, hg, hserial.symm⟩)
    have hp : p ∈ l₁ ++ p :: l₂ := mem_append_right l₁ mem_cons_self
    constructor
    · intro g hg
      rcases mem_cons.mp (perm_middle.subset hg) with rfl | hg
      · exact (hlive p hp).spend hbytes
      · exact hother g hg
    · intro c hc
      rw [mem_singleton.mp hc]
      exact ⟨p, (mem_queue_of_mem_live (hsplit ▸ hp)).1, rfl⟩

theorem Kept.spend {bytes room : ℕ} {more : List (ℕ × ℕ)}
    (hmore : more = ((payer bytes (s.live k)).map fun g => (g.serial, bytes)).toList)
    (hqueue : ∀ k', s'.queue k'
      = if k' = k then (returnSpent room (Relay.charge bytes (s.live k))).1 else s.queue k')
    (hsurrenders : s'.surrenders = s.surrenders ++ (returnSpent room (Relay.charge bytes (s.live k))).2)
    (hinstalled : s'.installed = s.installed) : s'.Kept opened (charges ++ more) := by
  obtain ⟨haccounted, hpayer⟩ := h.charge hmore
  obtain ⟨hsub, back, hback, hperm⟩ := returnSpent_perm room (Relay.charge bytes (s.live k))
  have hserials : ((Relay.charge bytes (s.live k)).map serial).Nodup := by
    rw [charge_serials]
    exact (h.distinct k).sublist (filter_sublist.map serial)
  have hsplit := (hperm.map serial).nodup hserials
  rw [map_append, nodup_append] at hsplit
  have hbackMem (g : CreditGrant) (hg : g ∈ back) : g ∈ Relay.charge bytes (s.live k) :=
    hperm.symm.subset (mem_append_right _ hg)
  -- a charged grant has the serial number of one that was held
  have horigin (g : CreditGrant) (hg : g ∈ Relay.charge bytes (s.live k)) :
      ∃ g₀ ∈ s.queue k, g₀.serial = g.serial := by
    have hserial := mem_map_of_mem (f := serial) hg
    rw [charge_serials] at hserial
    obtain ⟨g₀, hg₀, hsame⟩ := mem_map.mp hserial
    exact ⟨g₀, (mem_queue_of_mem_live hg₀).1, hsame⟩
  have hheld (k' : MappingKey) (g : CreditGrant) (hg : g ∈ s'.queue k') :
      Accounted opened (charges ++ more) k' g := by
    rw [hqueue] at hg
    split at hg
    · rename_i hk
      rw [hk]
      exact haccounted g (hsub.subset hg)
    · rename_i hk
      refine (h.held k' g hg).other ?_
      intro c hc hserial
      obtain ⟨p, hp, hpc⟩ := hpayer c hc
      exact hk ((h.held k' g hg).key_unique (h.held k p hp) (hserial.symm.trans hpc.symm))
  refine ⟨h.count.trans hinstalled.symm, ?_, hheld, ?_, ?_, ?_, ?_⟩
  · intro c hc
    rcases mem_append.mp hc with hc | hc
    · exact h.known c hc
    · obtain ⟨p, hp, hpc⟩ := hpayer c hc
      rw [← hpc]
      exact (h.held k p hp).serial_lt
  · intro k'
    rw [hqueue]
    split
    · exact hsplit.1
    · exact h.distinct k'
  · rw [hsurrenders, hback]
    intro x hx
    rcases mem_append.mp hx with hx | hx
    · refine (h.paid x hx).other ?_
      intro c hc
      obtain ⟨p, hp, hpc⟩ := hpayer c hc
      rw [← hpc]
      exact h.gone x hx k p hp
    · obtain ⟨g, hg, rfl⟩ := mem_map.mp hx
      exact (haccounted g (hbackMem g hg)).surrender
  · rw [hsurrenders, hback, List.map_append, List.map_map, List.nodup_append]
    refine ⟨h.once, hsplit.2.1, ?_⟩
    intro n hn n' hn' hsame
    obtain ⟨x, hx, rfl⟩ := mem_map.mp hn
    obtain ⟨g, hg, rfl⟩ := mem_map.mp hn'
    obtain ⟨g₀, hg₀, hserial⟩ := horigin g (hbackMem g hg)
    exact h.gone x hx k g₀ hg₀ (hserial.trans hsame.symm)
  · rw [hsurrenders, hback]
    intro x hx k' g hg
    rcases mem_append.mp hx with hx | hx
    · rw [hqueue] at hg
      split at hg
      · obtain ⟨g₀, hg₀, hserial⟩ := horigin g (hsub.subset hg)
        rw [← hserial]
        exact h.gone x hx k g₀ hg₀
      · exact h.gone x hx k' g hg
    · obtain ⟨b, hb, rfl⟩ := mem_map.mp hx
      intro hserial
      have hk := (hheld k' g hg).key_unique (haccounted b (hbackMem b hb)) hserial
      rw [hqueue, if_pos hk] at hg
      exact hsplit.2.2 _ (mem_map_of_mem hg) _ (mem_map_of_mem hb) hserial

/-- **One step** keeps the counters and the record together. -/
theorem kept_step (e : CreditEvent) :
    (s.step e).Kept (opened ++ (opens e).toList) (charges ++ (s.charges e).toList) := by
  cases does_step s e with
  | lease hqueue hsurrenders hinstalled hnow hopens hcharges =>
    rw [hopens, hcharges, toList_none, toList_none, append_nil, append_nil]
    refine h.of_sublist hsurrenders hinstalled fun k => ?_
    rcases hqueue k with hsame | ⟨hempty, -⟩
    · rw [hsame]
    · rw [hempty]
      exact nil_sublist _
  | install mapping validUntil grant hevent hqueue hsurrenders hinstalled hnow =>
    rw [hevent] at hqueue hsurrenders hinstalled ⊢
    rw [show s.charges (.installGrant mapping validUntil grant) = none from rfl, toList_none, append_nil]
    exact h.install hqueue hsurrenders hinstalled
  | spend k bytes room hqueue hsurrenders hinstalled hnow hopens hcharges =>
    rw [hopens, toList_none, append_nil]
    exact h.spend (congrArg toList hcharges) hqueue hsurrenders hinstalled

end

/-! ### Lasting -/

/-- A grant that is held for its mapping or was sent back, or is valid no more. -/
def Lasting (k : MappingKey) (serial validUntil : ℕ) (s : Controller) : Prop :=
  validUntil ≤ s.now ∨ (∃ g ∈ s.queue k, g.serial = serial ∧ g.validUntil = validUntil)
    ∨ ∃ x ∈ s.surrenders, x.serial = serial

def uncaps (k : MappingKey) : CreditEvent → Bool
  | .installUncapped mapping _ => mapping.creditKey = k
  | _ => false

section

variable {s : Controller} {k : MappingKey} {serial validUntil : ℕ}

/-- **One step** loses no grant that is valid, but for a lease. -/
theorem lasting_step (h : s.Lasting k serial validUntil) {e : CreditEvent} (he : uncaps k e = false) :
    (s.step e).Lasting k serial validUntil := by
  cases does_step s e with
  | lease hqueue hsurrenders hinstalled hnow hopens hcharges =>
    rcases h with hexpired | hheld | hback
    · exact .inl (hexpired.trans hnow)
    · rcases hqueue k with hsame | ⟨-, mapping, until', rfl, hk⟩
      · rw [← hsame] at hheld
        exact .inr (.inl hheld)
      · rw [uncaps, hk, decide_eq_true rfl] at he
        cases he
    · rw [← hsurrenders] at hback
      exact .inr (.inr hback)
  | install mapping until' grant hevent hqueue hsurrenders hinstalled hnow =>
    rcases h with hexpired | ⟨g, hg, hserial⟩ | hback
    · exact .inl (hexpired.trans hnow.ge)
    · refine .inr (.inl ⟨g, ?_, hserial⟩)
      rw [hqueue]
      split
      · rename_i hk
        exact mem_append_left _ (hk ▸ hg)
      · exact hg
    · rw [← hsurrenders] at hback
      exact .inr (.inr hback)
  | spend k' bytes room hqueue hsurrenders hinstalled hnow hopens hcharges =>
    rcases h with hexpired | ⟨g, hg, hserial, hvalid⟩ | ⟨x, hx, hserial⟩
    · exact .inl (hexpired.trans hnow.ge)
    · by_cases hk : k = k'
      · subst hk
        by_cases hlive : s.now < validUntil
        · -- it is charged in its place, and stays or goes back
          have hmem : g ∈ s.live k := mem_filter.mpr ⟨hg, decide_eq_true (hvalid ▸ hlive)⟩
          obtain ⟨g', hg', hserial', hvalid'⟩ := exists_mem_charge bytes hmem
          obtain ⟨-, back, hback, hperm⟩ := returnSpent_perm room (charge bytes (s.live k))
          rcases mem_append.mp (hperm.subset hg') with hstay | hgone
          · refine .inr (.inl ⟨g', ?_, hserial'.trans hserial, hvalid'.trans hvalid⟩)
            rw [hqueue, if_pos rfl]
            exact hstay
          · refine .inr (.inr ⟨g'.surrender, ?_, hserial'.trans hserial⟩)
            rw [hsurrenders, hback]
            exact mem_append_right _ (mem_map_of_mem hgone)
        · exact .inl ((Nat.not_lt.mp hlive).trans hnow.ge)
      · refine .inr (.inl ⟨g, ?_, hserial, hvalid⟩)
        rw [hqueue, if_neg hk]
        exact hg
    · refine .inr (.inr ⟨x, ?_, hserial⟩)
      rw [hsurrenders]
      exact mem_append_left _ hx

theorem lasting_install (s : Controller) (mapping : UsageMapping) (validUntil : ℕ) (grant : ParsedGrant) :
    (s.step (.installGrant mapping validUntil grant)).Lasting mapping.creditKey s.installed
      validUntil := by
  by_cases hvalid : s.now < validUntil
  · refine .inr (.inl ⟨s.newGrant validUntil grant, ?_, rfl, rfl⟩)
    have hstates : (s.step (.installGrant mapping validUntil grant)).states
        = s.states.insert mapping.creditKey (.capped (s.queue mapping.creditKey
          ++ if s.now < validUntil then [s.newGrant validUntil grant] else [])) := rfl
    rw [queue_insert hstates, if_pos rfl, if_pos hvalid]
    exact mem_append_right _ mem_cons_self
  · exact .inl (Nat.not_lt.mp hvalid)

end

/-! ### Runs -/

def run (s : Controller) (evs : List CreditEvent) : Controller := Runs.run step s evs

def openedBy (s : Controller) (evs : List CreditEvent) : List Opened :=
  Runs.trace step (fun _ => opens) s evs

def chargesOf (s : Controller) (evs : List CreditEvent) : List (ℕ × ℕ) :=
  Runs.trace step charges s evs

theorem kept_start (requestedBytes now : ℕ) : (start requestedBytes now).Kept [] [] := by
  refine ⟨rfl, ?_, ?_, fun _ => nodup_nil, ?_, nodup_nil, ?_⟩
  · exact fun c hc => by cases hc
  · exact fun k g hg => by cases hg
  · exact fun x hx => by cases hx
  · exact fun x hx => by cases hx

theorem kept_run (requestedBytes now : ℕ) (evs : List CreditEvent) :
    (run (start requestedBytes now) evs).Kept (openedBy (start requestedBytes now) evs)
      (chargesOf (start requestedBytes now) evs) := by
  induction evs using reverseRecOn with
  | nil => exact kept_start requestedBytes now
  | append_singleton evs e ih =>
    rw [run, Runs.run_concat, openedBy, Runs.trace_concat, chargesOf, Runs.trace_concat]
    exact kept_step ih e

theorem lasting_run {s : Controller} {k : MappingKey} {serial validUntil : ℕ}
    (h : s.Lasting k serial validUntil) {evs : List CreditEvent}
    (hevs : ∀ e ∈ evs, uncaps k e = false) : (run s evs).Lasting k serial validUntil := by
  induction evs generalizing s with
  | nil => exact h
  | cons e evs ih =>
    obtain ⟨he, hevs⟩ := forall_mem_cons.mp hevs
    exact ih (lasting_step h he) hevs

/-! ### Shutdown -/

/-- Everything that was sent back, with what is held at the end. -/
def surrendered (s : Controller) : List SurrenderGrant := s.surrenders ++ s.takeSurrenderableGrants.2

section

variable {s : Controller} {opened : List Opened} {charges : List (ℕ × ℕ)}

theorem mem_takeSurrenderableGrants {x : SurrenderGrant} :
    x ∈ s.takeSurrenderableGrants.2 ↔ ∃ k, ∃ g ∈ s.queue k, x = g.surrender := by
  rw [takeSurrenderableGrants, mem_flatMap]
  constructor
  · intro h
    obtain ⟨⟨k, a⟩, he, hx⟩ := h
    obtain ⟨g, hg, rfl⟩ := mem_map.mp hx
    refine ⟨k, g, ?_, rfl⟩
    rw [queue, AList.mem_lookup_iff.mpr he]
    exact hg
  · intro h
    obtain ⟨k, g, hg, rfl⟩ := h
    rw [queue] at hg
    cases hlookup : s.states.lookup k with
    | none =>
      rw [hlookup] at hg
      cases hg
    | some a =>
      rw [hlookup] at hg
      exact ⟨⟨k, a⟩, AList.mem_lookup_iff.mp hlookup, mem_map_of_mem hg⟩

variable (h : s.Kept opened charges)
include h

theorem nodup_takeSurrenderableGrants : (s.takeSurrenderableGrants.2.map SurrenderGrant.serial).Nodup := by
  have hqueue (e : Sigma fun _ : MappingKey => Allowance) (he : e ∈ s.states.entries) :
      e.2.grants = s.queue e.1 := by
    rw [queue, AList.mem_lookup_iff.mpr he]
    rfl
  rw [takeSurrenderableGrants, map_flatMap, nodup_flatMap]
  constructor
  · intro e he
    rw [hqueue e he, List.map_map]
    exact h.distinct e.1
  · refine (nodupKeys_iff_pairwise.mp s.states.nodupKeys).imp_of_mem ?_
    intro e e' he he' hne n hn hn'
    dsimp only at hn hn'
    rw [hqueue e he, List.map_map] at hn
    rw [hqueue e' he', List.map_map] at hn'
    obtain ⟨g, hg, rfl⟩ := mem_map.mp hn
    obtain ⟨g', hg', hserial⟩ := mem_map.mp hn'
    exact hne ((h.held e.1 g hg).key_unique (h.held e'.1 g' hg') hserial.symm)

theorem nodup_surrendered : (s.surrendered.map SurrenderGrant.serial).Nodup := by
  rw [surrendered, map_append, nodup_append]
  refine ⟨h.once, nodup_takeSurrenderableGrants h, ?_⟩
  intro n hn n' hn' hsame
  obtain ⟨x, hx, rfl⟩ := mem_map.mp hn
  obtain ⟨y, hy, rfl⟩ := mem_map.mp hn'
  obtain ⟨k, g, hg, rfl⟩ := mem_takeSurrenderableGrants.mp hy
  exact h.gone x hx k g hg hsame.symm

theorem paid_surrendered : ∀ x ∈ s.surrendered, Paid opened charges x := by
  intro x hx
  rcases mem_append.mp hx with hx | hx
  · exact h.paid x hx
  · obtain ⟨k, g, hg, rfl⟩ := mem_takeSurrenderableGrants.mp hx
    exact (h.held k g hg).surrender

omit h

theorem Lasting.surrendered {k : MappingKey} {serial validUntil : ℕ}
    (h : s.Lasting k serial validUntil) (hvalid : s.now < validUntil) :
    ∃ x ∈ s.surrendered, x.serial = serial := by
  rcases h with hexpired | ⟨g, hg, hserial, -⟩ | ⟨x, hx, hserial⟩
  · exact absurd hvalid (Nat.not_lt.mpr hexpired)
  · exact ⟨g.surrender, mem_append_right _ (mem_takeSurrenderableGrants.mpr ⟨k, g, hg, rfl⟩), hserial⟩
  · exact ⟨x, mem_append_left _ hx, hserial⟩

end

theorem charges_of_admitted {s : Controller} {mapping : UsageMapping} {bytes room : ℕ} {taken : Bool}
    {grants : List CreditGrant} (hcapped : s.states.lookup mapping.creditKey = some (.capped grants))
    (hbytes : 0 < bytes) (hadmitted : (s.reserve mapping bytes room taken).2 = true) :
    ∃ g ∈ s.queue mapping.creditKey, s.now < g.validUntil
      ∧ s.charges (.reserve mapping bytes room taken) = some (g.serial, bytes) := by
  unfold reserve at hadmitted
  rw [if_neg hbytes.ne'] at hadmitted
  split at hadmitted
  · cases hadmitted
  · rename_i hopen
    rw [hcapped] at hadmitted
    have hpayer : (payer bytes (s.live mapping.creditKey)).isSome = true := by
      dsimp only at hadmitted
      split at hadmitted
      · exact hadmitted
      · exact hadmitted
    obtain ⟨g, hg⟩ := isSome_iff_exists.mp hpayer
    obtain ⟨hmem, hvalid⟩ := mem_queue_of_mem_live (mem_of_find?_eq_some hg)
    refine ⟨g, hmem, hvalid, ?_⟩
    rw [charges, if_neg (not_or.mpr ⟨hbytes.ne', hopen⟩), hg]
    rfl

/-- **Credits are conserved**: every valid grant is surrendered once with what was charged to it,
unless its mapping was given a lease since. -/
theorem credits_conserved (requestedBytes now : ℕ) (evs : List CreditEvent) :
    (∀ x ∈ (run (start requestedBytes now) evs).surrendered,
      Paid (openedBy (start requestedBytes now) evs) (chargesOf (start requestedBytes now) evs) x)
    ∧ ((run (start requestedBytes now) evs).surrendered.map SurrenderGrant.serial).Nodup
    ∧ (∀ before mapping bytes room taken after grants,
      evs = before ++ .reserve mapping bytes room taken :: after →
      (run (start requestedBytes now) before).states.lookup mapping.creditKey = some (.capped grants) →
      0 < bytes → ((run (start requestedBytes now) before).reserve mapping bytes room taken).2 = true →
      ∃ g ∈ (run (start requestedBytes now) before).queue mapping.creditKey,
        (run (start requestedBytes now) before).now < g.validUntil
          ∧ (run (start requestedBytes now) before).charges (.reserve mapping bytes room taken)
            = some (g.serial, bytes)) ∧ ∀ before mapping validUntil grant after,
      evs = before ++ .installGrant mapping validUntil grant :: after →
      (run (start requestedBytes now) evs).now < validUntil →
      (∀ e ∈ after, uncaps mapping.creditKey e = false) →
      ∃ x ∈ (run (start requestedBytes now) evs).surrendered,
        x.serial = (run (start requestedBytes now) before).installed := by
  have hkept := kept_run requestedBytes now evs
  refine ⟨paid_surrendered hkept, nodup_surrendered hkept, ?_, ?_⟩
  · intro before mapping bytes room taken after grants hevs hcapped hbytes hadmitted
    exact charges_of_admitted hcapped hbytes hadmitted
  · intro before mapping validUntil grant after hevs hvalid hafter
    have hend : run (start requestedBytes now) evs
        = run ((run (start requestedBytes now) before).step (.installGrant mapping validUntil grant))
          after := by
      rw [hevs]
      exact Runs.run_append step _ before _
    rw [hend] at hvalid ⊢
    exact (lasting_run (lasting_install _ mapping validUntil grant) hafter).surrendered hvalid

/-! ### A lease after a grant -/

def letter : Text := ⟨ascii "a", validUtf8_a⟩

def tenBytes : ParsedGrant := ⟨⟨letter, letter, letter, letter⟩, 10, 0, by decide⟩

def tenant : UsageMapping := ⟨letter, letter, letter⟩

/-- A grant of ten bytes, and a lease for its mapping while the grant is valid. -/
def grantThenLease : List CreditEvent := [.installGrant tenant 100 tenBytes, .installUncapped tenant 50]

theorem lease_drops_grant : (openedBy (start 10 0) grantThenLease).map Opened.validUntil = [100]
      ∧ (run (start 10 0) grantThenLease).now = 0
      ∧ (run (start 10 0) grantThenLease).surrendered = [] := ⟨rfl, rfl, rfl⟩

end Controller

end Karst.Relay
