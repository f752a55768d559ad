import Karst.Datapath.Engine

/-!
# Stateful admission

`Engine::permit` over the history of a fixed roster.  A packet is admitted because a rule and the
gates grant it, or because it belongs to a flow; a flow is opened by a packet that was granted and
kept open by packets that were admitted.
-/

namespace Karst.Datapath.Engine

open Crypto Option Engine
open List hiding Vector

variable {P : Primitives} {F : FileTransfers}

def flowLookup (e : Engine P F) (slot : Ref) (k : Key) : Option ℕ :=
  (e.slots.cell slot).flows.seen.lookup k

def sshLookup (e : Engine P F) (slot : Ref) (k : Key) : Option ℕ :=
  (e.slots.cell slot).sshAdmissions.seen.lookup k

/-! ### Evaluation -/

/-- What evaluating a packet can do: the flow tables are left alone, and a flow enters the SSH gate's
table only by the gate's consent. -/
structure Evaluates (r : Roster P) (a : Arrival) (amb : Ambient) (e e' : Engine P F)
    (d : Decision) : Prop where
  roster : e'.roster = e.roster
  flows : ∀ slot k, e'.flowLookup slot k = e.flowLookup slot k
  ssh : ∀ slot k v, e'.sshLookup slot k = some v → (∃ v', e.sshLookup slot k = some v')
    ∨ r.peers[a.peer]? = some slot ∧ r.config.sshFilter.admitPeer a.peer = .permit
  granted : d = .granted → refusesForwarding r.config a = false ∧ verdict r.config a = .permit
    ∧ ∀ slot, r.peers[a.peer]? = some slot →
      (compliancePermits r.config a amb.elapsed e.compliancePermit).2 = true
      ∧ (isSsh a = true → r.config.sshFilter.admitPeer a.peer = .permit ∨ ∃ k v, e.sshLookup slot k = some v)
  ask : d = .ask → verdict r.config a = .denied

theorem sshGatePermits_spec (config : Config P) (slot : Ref) (a : Arrival) (amb : Ambient)
    (e : Engine P F) : ∃ (table : SshAdmissions) (ok : Bool), (sshGatePermits config slot a amb).run e
        = (e.writeSlot slot { e.slots.cell slot with sshAdmissions := table }, ok)
      ∧ (∀ k v, table.seen.lookup k = some v →
          (∃ v', e.sshLookup slot k = some v') ∨ config.sshFilter.admitPeer a.peer = .permit)
      ∧ (ok = true → config.sshFilter.admitPeer a.peer = .permit ∨ ∃ k v, e.sshLookup slot k = some v) := by
  let before := (e.slots.cell slot).sshAdmissions
  let after := (before.isAdmitted .inbound a.packet a.nowMs).1
  have hafter k v (hk : after.seen.lookup k = some v) : ∃ v', e.sshLookup slot k = some v' := by
    rcases of_lookup_renewKey hk with ⟨hkey, -, hgood⟩ | ⟨-, hold⟩
    · obtain ⟨k', last, hkey', hlast, -⟩ := renewKey_eq_true.mp hgood
      rw [hkey, some.injEq] at hkey'
      exact ⟨last, hkey' ▸ hlast⟩
    · exact ⟨v, hold⟩
  cases hgood : (before.isAdmitted .inbound a.packet a.nowMs).2 with
  | true =>
    refine ⟨after, true, ?_, fun k v hk => .inl (hafter k v hk), fun _ => .inr ?_⟩
    · simp [sshGatePermits, before, after, hgood]
    · obtain ⟨k, last, -, hlast, -⟩ := renewKey_eq_true.mp hgood
      exact ⟨k, last, hlast⟩
  | false =>
    by_cases hadmits : config.sshFilter.admitPeer a.peer = .permit
    · refine ⟨after.admitPacket amb.order .inbound a.packet a.nowMs, true, ?_,
        fun _ _ _ => .inr hadmits, fun _ => .inl hadmits⟩
      simp [sshGatePermits, before, after, hgood, hadmits]
    · refine ⟨after, false, ?_, fun k v hk => .inl (hafter k v hk), by simp⟩
      simp [sshGatePermits, before, after, hgood, hadmits]

variable {r : Roster P} {a : Arrival} {e : Engine P F} {d : Decision}

theorem Evaluates.of_compliance {amb : Ambient} {snapshot : Option Compliance.PermitSnapshot}
    (granted : d = .granted → refusesForwarding r.config a = false ∧ verdict r.config a = .permit
      ∧ ∀ slot, r.peers[a.peer]? = some slot →
        (compliancePermits r.config a amb.elapsed e.compliancePermit).2 = true ∧ isSsh a = false)
    (ask : d = .ask → verdict r.config a = .denied) :
    Evaluates r a amb e { e with compliancePermit := snapshot } d where
  roster := rfl
  flows _ _ := rfl
  ssh _ _ v h := .inl ⟨v, h⟩
  granted hd := by
    obtain ⟨hforward, hrules, hgates⟩ := granted hd
    refine ⟨hforward, hrules, fun slot hslot => ?_⟩
    obtain ⟨hcompliant, hssh⟩ := hgates slot hslot
    exact ⟨hcompliant, fun h => absurd h (by simp [hssh])⟩
  ask := ask

variable {slot : Ref}

theorem gates_spec {amb : Ambient} (hforward : refusesForwarding r.config a = false)
    (hrules : verdict r.config a = .permit) (hslot : r.peers[a.peer]? = some slot) :
    Evaluates r a amb e ((gates r.config slot a amb).run e).1 ((gates r.config slot a amb).run e).2 := by
  cases hcompliant : (compliancePermits r.config a amb.elapsed e.compliancePermit).2 with
  | false =>
    have hrun : (gates r.config slot a amb).run e = ({ e with compliancePermit :=
        (compliancePermits r.config a amb.elapsed e.compliancePermit).1 }, .deny) := by
      simp [gates, hcompliant]
    rw [hrun]
    exact Evaluates.of_compliance (by simp) (by simp)
  | true =>
    cases hssh : isSsh a with
    | false =>
      have hrun : (gates r.config slot a amb).run e = ({ e with compliancePermit :=
          (compliancePermits r.config a amb.elapsed e.compliancePermit).1 }, .granted) := by
        simp [gates, hcompliant, hssh]
      rw [hrun]
      exact Evaluates.of_compliance (fun _ => ⟨hforward, hrules, fun _ _ => ⟨hcompliant, hssh⟩⟩) (by simp)
    | true =>
      obtain ⟨table, ok, hgate, htable, hok⟩ := sshGatePermits_spec r.config slot a amb
        { e with compliancePermit :=
          (compliancePermits r.config a amb.elapsed e.compliancePermit).1 }
      have hrun : (gates r.config slot a amb).run e
          = (((sshGatePermits r.config slot a amb).run { e with compliancePermit :=
              (compliancePermits r.config a amb.elapsed e.compliancePermit).1 }).1,
            if ok then .granted else .deny) := by
        cases ok <;> simp [gates, hcompliant, hssh, hgate]
      rw [hrun, hgate]
      refine ⟨rfl, fun q k => ?_, fun q k v hk => ?_, fun hd => ⟨hforward, hrules, ?_⟩, ?_⟩
      · by_cases hq : q = slot
        · subst hq
          simp [flowLookup]
        · simp only [flowLookup, writeSlot_ne hq]
      · by_cases hq : q = slot
        · subst hq
          simp only [sshLookup, writeSlot_self] at hk
          exact (htable k v hk).imp id fun h => ⟨hslot, h⟩
        · simp only [sshLookup, writeSlot_ne hq] at hk
          exact .inl ⟨v, hk⟩
      · intro q hq
        obtain rfl : slot = q := some.inj (hslot.symm.trans hq)
        refine ⟨hcompliant, fun _ => hok ?_⟩
        cases ok with
        | true => rfl
        | false => simp at hd
      · cases ok <;> simp

theorem evaluate_spec (r : Roster P) (a : Arrival) (amb : Ambient) (e : Engine P F) :
    Evaluates r a amb e ((evaluate r a amb).run e).1 ((evaluate r a amb).run e).2 := by
  cases hforward : refusesForwarding r.config a with
  | true =>
    simp only [evaluate, hforward, if_true, Prog.run_pure]
    exact Evaluates.of_compliance (by simp) (by simp)
  | false =>
    cases hrules : verdict r.config a with
    | permit =>
      cases hslot : r.peers[a.peer]? with
      | none =>
        simp only [evaluate, hforward, hrules, hslot, Bool.false_eq_true, if_false, Prog.run_pure]
        exact Evaluates.of_compliance (fun _ => ⟨hforward, hrules, by simp [hslot]⟩) (by simp)
      | some slot =>
        simp only [evaluate, hforward, hrules, hslot, Bool.false_eq_true, if_false]
        exact gates_spec hforward hrules hslot
    | denied =>
      simp only [evaluate, hforward, hrules, Bool.false_eq_true, if_false, Prog.run_pure]
      exact Evaluates.of_compliance (by simp) fun _ => hrules
    | unclassifiable =>
      simp only [evaluate, hforward, hrules, Bool.false_eq_true, if_false, Prog.run_pure]
      exact Evaluates.of_compliance (by simp) (by simp)

/-! ### Settlement -/

def OfFlow (r : Roster P) (a : Arrival) (slot : Ref) (k : Key) : Prop :=
  r.peers[a.peer]? = some slot ∧ Key.of a.dir a.packet = some k

/-- What the flow table's part can do: an admitted packet puts its own time to its own flow, and a
packet that asked had a flow that was not idle for too long. -/
structure Settles (r : Roster P) (a : Arrival) (d : Decision) (e e' : Engine P F) (ok : Bool) :
    Prop where
  roster : e'.roster = e.roster
  ssh : ∀ slot k, e'.sshLookup slot k = e.sshLookup slot k
  flows : ∀ slot k v, e'.flowLookup slot k = some v → OfFlow r a slot k ∧ v = a.nowMs ∧ ok = true
    ∨ (OfFlow r a slot k → ok = false) ∧ e.flowLookup slot k = some v
  admitted : ok = true → d = .granted
    ∨ d = .ask ∧ ∃ slot k last, OfFlow r a slot k ∧ e.flowLookup slot k = some last ∧ a.nowMs ≤ last + IDLE_MS

variable {ok : Bool}

theorem Settles.lookup {e' : Engine P F} (h : Settles r a d e e' ok) {k : Key} {v : ℕ}
    (hk : e'.flowLookup slot k = some v) :
    d = .granted ∧ OfFlow r a slot k ∨ ∃ v', e.flowLookup slot k = some v' := by
  rcases h.flows slot k v hk with ⟨hflow, -, hok⟩ | ⟨-, hold⟩
  · rcases h.admitted hok with hd | ⟨-, slot', k', last, hflow', hlast, -⟩
    · exact .inl ⟨hd, hflow⟩
    · obtain rfl : slot = slot' := some.inj (hflow.1.symm.trans hflow'.1)
      obtain rfl : k = k' := some.inj (hflow.2.symm.trans hflow'.2)
      exact .inr ⟨last, hlast⟩
  · exact .inr ⟨v, hold⟩

theorem Settles.of_refl (hok : ok = true → d = .granted ∧ r.peers[a.peer]? = none) :
    Settles r a d e e ok where
  roster := rfl
  ssh _ _ := rfl
  flows slot k v h := by
    refine .inr ⟨fun hflow => ?_, h⟩
    cases ok with
    | false => rfl
    | true =>
      have hslot := hflow.1
      rw [(hok rfl).2] at hslot
      cases hslot
  admitted h := .inl (hok h).1

theorem Settles.of_write {flows : Flows} (hslot : r.peers[a.peer]? = some slot)
    (hflows : ∀ k v, flows.seen.lookup k = some v →
      Key.of a.dir a.packet = some k ∧ v = a.nowMs ∧ ok = true
        ∨ Key.of a.dir a.packet ≠ some k ∧ e.flowLookup slot k = some v)
    (hadmitted : ok = true → d = .granted ∨ d = .ask ∧ ∃ k last, Key.of a.dir a.packet = some k
      ∧ e.flowLookup slot k = some last ∧ a.nowMs ≤ last + IDLE_MS) :
    Settles r a d e (e.writeSlot slot { e.slots.cell slot with flows }) ok where
  roster := rfl
  ssh q k := by
    by_cases hq : q = slot
    · subst hq
      simp [sshLookup]
    · simp only [sshLookup, writeSlot_ne hq]
  flows q k v h := by
    by_cases hq : q = slot
    · subst hq
      simp only [flowLookup, writeSlot_self] at h
      rcases hflows k v h with ⟨hkey, hv, hok⟩ | ⟨hkey, hold⟩
      · exact .inl ⟨⟨hslot, hkey⟩, hv, hok⟩
      · exact .inr ⟨fun hflow => absurd hflow.2 hkey, hold⟩
    · simp only [flowLookup, writeSlot_ne hq] at h
      exact .inr ⟨fun hflow => absurd (some.inj (hflow.1.symm.trans hslot)) hq, h⟩
  admitted h := (hadmitted h).imp id fun ⟨hd, k, last, hkey, hlast, hidle⟩ =>
    ⟨hd, slot, k, last, ⟨hslot, hkey⟩, hlast, hidle⟩

theorem settle_spec (r : Roster P) (a : Arrival) (amb : Ambient) (d : Decision) (e : Engine P F) :
    Settles r a d e ((settle r a amb d).run e).1 ((settle r a amb d).run e).2 := by
  cases d with
  | deny => exact Settles.of_refl (by simp [settle])
  | granted =>
    cases hslot : r.peers[a.peer]? with
    | none =>
      simp only [settle, hslot, Prog.run_pure]
      exact Settles.of_refl fun _ => ⟨rfl, hslot⟩
    | some slot =>
      simp only [settle, hslot, run_onSlot]
      refine Settles.of_write hslot (fun k v hk => ?_) fun _ => .inl rfl
      rcases of_lookup_recordKey hk with ⟨hkey, hv⟩ | hold
      · exact .inl ⟨hkey, hv, rfl⟩
      · exact .inr hold
  | ask =>
    cases hslot : r.peers[a.peer]? with
    | none =>
      simp only [settle, hslot, Prog.run_pure]
      exact Settles.of_refl (by simp)
    | some slot =>
      simp only [settle, hslot, run_onSlot]
      refine Settles.of_write hslot (fun k v hk => of_lookup_renewKey hk) fun hok => .inr ?_
      obtain ⟨k, last, hkey, hlast, hidle⟩ := renewKey_eq_true.mp hok
      exact ⟨rfl, k, last, hkey, hlast, hidle⟩

end Karst.Datapath.Engine

namespace Karst.Datapath.Admission

open Crypto Engine Runs

variable {P : Primitives} {F : FileTransfers}

/-! ### Histories -/

/-- What happens between two reconfigurations, as far as admission goes. -/
inductive Event where
  | packet (a : Arrival) (amb : Ambient)
  | compliance (update : PermitUpdate)

def admits (e : Engine P F) (a : Arrival) (amb : Ambient) : Bool := ((permit e.roster a amb).run e).2

def step (e : Engine P F) : Event → Engine P F
  | .packet a amb => ((permit e.roster a amb).run e).1
  | .compliance update => ((setCompliancePermit update).run e).1

/-- A rule permits the packet in its own direction, and so do the gates that apply. -/
structure Granted (e : Engine P F) (a : Arrival) (amb : Ambient) : Prop where
  forwarding : refusesForwarding e.roster.config a = false
  rules : verdict e.roster.config a = .permit
  compliance : a.peer < e.roster.peers.length →
    (compliancePermits e.roster.config a amb.elapsed e.compliancePermit).2 = true
  ssh : a.peer < e.roster.peers.length → isSsh a = true → e.roster.config.sshFilter.admitPeer a.peer = .permit

def flowTime (peer : PeerIndex) (k : Key) (e : Engine P F) : Event → Option ℕ
  | .packet a amb =>
    if a.peer = peer ∧ Key.of a.dir a.packet = some k ∧ admits e a amb = true then some a.nowMs
    else none
  | .compliance _ => none

/-- A granted packet `o` of the flow `k` was admitted, and `times` are its time and those of the
packets of the flow admitted since. -/
def Opened (e₀ : Engine P F) (evs : List Event) (o : Arrival) (k : Key) (times : List ℕ) : Prop :=
  ∃ before amb since, evs = before ++ .packet o amb :: since ∧ Key.of o.dir o.packet = some k
    ∧ Granted (run step e₀ before) o amb ∧ admits (run step e₀ before) o amb = true
    ∧ times = o.nowMs :: trace step (flowTime o.peer k) (run step e₀ (before ++ [.packet o amb])) since

/-- No gap between consecutive times is longer than the idle time. -/
def Unbroken (times : List ℕ) : Prop := times.IsChain fun s t => t ≤ s + IDLE_MS

variable {e₀ : Engine P F} {evs : List Event} {o : Arrival} {k : Key}

theorem Opened.key {times : List ℕ} (h : Opened e₀ evs o k times) : Key.of o.dir o.packet = some k := by
  obtain ⟨_, _, _, _, hkey, _⟩ := h
  exact hkey

theorem Opened.concat {times : List ℕ} (h : Opened e₀ evs o k times) (ev : Event) :
    Opened e₀ (evs ++ [ev]) o k (times ++ (flowTime o.peer k (run step e₀ evs) ev).toList) := by
  obtain ⟨before, amb, since, rfl, hkey, hgranted, hadmits, rfl⟩ := h
  refine ⟨before, amb, since ++ [ev], by simp, hkey, hgranted, hadmits, ?_⟩
  rw [trace_concat, ← run_append, List.cons_append, List.append_assoc, List.singleton_append]

/-! ### Every flow has its history -/

section

variable {config : Config P} {evs : List Event}

/-- The state after `evs`: a lease is the last time of an unbroken history, and what is in the SSH
gate's table got there by the gate's consent. -/
structure Invariant (e₀ : Engine P F) (evs : List Event) : Prop where
  roster : (run step e₀ evs).roster = e₀.roster
  flows : ∀ peer slot k v, e₀.roster.peers[peer]? = some slot → (run step e₀ evs).flowLookup slot k = some v →
    ∃ o times, Opened e₀ evs o k times ∧ o.peer = peer ∧ Unbroken times ∧ times.getLast? = some v
  ssh : ∀ peer slot k v, e₀.roster.peers[peer]? = some slot →
    (run step e₀ evs).sshLookup slot k = some v → e₀.roster.config.sshFilter.admitPeer peer = .permit

theorem new_peers (config : Config P) :
    (new config : Engine P F).roster.peers = List.range' 0 config.peers.length :=
  buildSlots_fresh config config.peers 0 _

theorem new_peers_inj {p q : PeerIndex} {slot : Ref}
    (hp : (new config : Engine P F).roster.peers[p]? = some slot)
    (hq : (new config : Engine P F).roster.peers[q]? = some slot) : p = q := by
  obtain ⟨hlt, -⟩ := getElem?_eq_some_iff.mp hp
  have hnodup : (new config : Engine P F).roster.peers.Nodup := by
    rw [new_peers]
    exact List.nodup_range'
  exact (List.getElem?_inj hlt hnodup).mp (hp.trans hq.symm)

theorem new_lookups (config : Config P) (slot : Ref) (k : Key) :
    (new config : Engine P F).flowLookup slot k = none
      ∧ (new config : Engine P F).sshLookup slot k = none := by
  rcases new_cell (F := F) config slot with hcell | ⟨i, peer, hcell⟩
  all_goals
    simp only [flowLookup, sshLookup, hcell]
    exact ⟨rfl, rfl⟩

theorem invariant_nil (config : Config P) : Invariant (new config : Engine P F) [] where
  roster := rfl
  flows peer slot k v _ h := by
    rw [run_nil, (new_lookups config slot k).1] at h
    cases h
  ssh peer slot k v _ h := by
    rw [run_nil, (new_lookups config slot k).2] at h
    cases h

variable {e₀ : Engine P F}

theorem packet_spec (h : Invariant e₀ evs) (a : Arrival) (amb : Ambient) :
    ∃ d e', Evaluates e₀.roster a amb (run step e₀ evs) e' d
      ∧ Settles e₀.roster a d e' (step (run step e₀ evs) (.packet a amb))
        (admits (run step e₀ evs) a amb) := by
  have hevaluate := evaluate_spec e₀.roster a amb (run step e₀ evs)
  have hsettle := settle_spec e₀.roster a amb ((evaluate e₀.roster a amb).run (run step e₀ evs)).2
    ((evaluate e₀.roster a amb).run (run step e₀ evs)).1
  refine ⟨_, _, hevaluate, ?_⟩
  simpa only [step, admits, permit, h.roster, Prog.run_bind] using hsettle

variable {a : Arrival} {amb : Ambient}

theorem Invariant.granted (h : Invariant e₀ evs) {e' : Engine P F}
    (heval : Evaluates e₀.roster a amb (run step e₀ evs) e' .granted) : Granted (run step e₀ evs) a amb := by
  obtain ⟨hforward, hrules, hgates⟩ := heval.granted rfl
  rw [← h.roster] at hforward hrules
  refine ⟨hforward, hrules, fun hlt => ?_, fun hlt hssh => ?_⟩
  all_goals rw [h.roster] at hlt ⊢
  · exact (hgates _ (List.getElem?_eq_getElem hlt)).1
  · rcases (hgates _ (List.getElem?_eq_getElem hlt)).2 hssh with hadmits | ⟨k, v, hk⟩
    · exact hadmits
    · exact h.ssh a.peer _ k v (List.getElem?_eq_getElem hlt) hk

theorem Invariant.admitted (h : Invariant e₀ evs) (hadmits : admits (run step e₀ evs) a amb = true) :
    Granted (run step e₀ evs) a amb ∨ ∃ slot k last, OfFlow e₀.roster a slot k
      ∧ (run step e₀ evs).flowLookup slot k = some last ∧ a.nowMs ≤ last + IDLE_MS := by
  obtain ⟨d, e', heval, hsettle⟩ := packet_spec h a amb
  rcases hsettle.admitted hadmits with rfl | ⟨-, slot, k, last, hflow, hlast, hidle⟩
  · exact .inl (h.granted heval)
  · rw [heval.flows] at hlast
    exact .inr ⟨slot, k, last, hflow, hlast, hidle⟩

theorem Unbroken.concat {times : List ℕ} {last t : ℕ} (h : Unbroken times)
    (hlast : times.getLast? = some last) (ht : t ≤ last + IDLE_MS) : Unbroken (times ++ [t]) := by
  refine List.isChain_append.mpr ⟨h, List.isChain_singleton t, fun s hs u hu => ?_⟩
  rw [hlast] at hs
  obtain rfl : last = s := by simpa using hs
  obtain rfl : t = u := by simpa using hu
  exact ht

theorem Invariant.opened (h : Invariant e₀ evs) {slot : Ref}
    (hadmits : admits (run step e₀ evs) a amb = true) (hflow : OfFlow e₀.roster a slot k) :
    ∃ o times, Opened e₀ (evs ++ [.packet a amb]) o k times ∧ o.peer = a.peer ∧ Unbroken times
      ∧ times.getLast? = some a.nowMs := by
  rcases h.admitted hadmits with hgranted | ⟨slot', k', last, hflow', hlast, hidle⟩
  · exact ⟨a, [a.nowMs], ⟨evs, amb, [], rfl, hflow.2, hgranted, hadmits, rfl⟩, rfl,
      List.isChain_singleton _, rfl⟩
  · obtain rfl : slot = slot' := Option.some.inj (hflow.1.symm.trans hflow'.1)
    obtain rfl : k = k' := Option.some.inj (hflow.2.symm.trans hflow'.2)
    obtain ⟨o, times, hopened, hpeer, hunbroken, htimes⟩ := h.flows a.peer slot k last hflow.1 hlast
    have htime : flowTime o.peer k (run step e₀ evs) (.packet a amb) = some a.nowMs := by
      simp [flowTime, hpeer, hflow.2, hadmits]
    have hconcat := hopened.concat (.packet a amb)
    rw [htime, Option.toList_some] at hconcat
    exact ⟨o, times ++ [a.nowMs], hconcat, hpeer, hunbroken.concat htimes hidle, by simp⟩

theorem invariant_concat_packet (hinj : ∀ (p q : PeerIndex) slot, e₀.roster.peers[p]? = some slot →
      e₀.roster.peers[q]? = some slot → p = q) (h : Invariant e₀ evs) (a : Arrival) (amb : Ambient) :
    Invariant e₀ (evs ++ [.packet a amb]) := by
  obtain ⟨d, e', heval, hsettle⟩ := packet_spec h a amb
  refine ⟨?_, fun peer slot k v hslot hk => ?_, fun peer slot k v hslot hk => ?_⟩
  all_goals rw [run_concat] at *
  · rw [hsettle.roster, heval.roster, h.roster]
  · rcases hsettle.flows slot k v hk with ⟨hflow, rfl, hadmits⟩ | ⟨hnot, hold⟩
    · obtain rfl : peer = a.peer := hinj _ _ slot hslot hflow.1
      exact h.opened hadmits hflow
    · rw [heval.flows] at hold
      obtain ⟨o, times, hopened, rfl, hunbroken, htimes⟩ := h.flows peer slot k v hslot hold
      -- the packet is of another flow, or was turned away
      have htime : flowTime o.peer k (run step e₀ evs) (.packet a amb) = none := by
        refine if_neg fun ⟨hpeer, hkey, hadmits⟩ => ?_
        rw [hnot ⟨hpeer ▸ hslot, hkey⟩] at hadmits
        cases hadmits
      have hconcat := hopened.concat (.packet a amb)
      rw [htime, Option.toList_none, List.append_nil] at hconcat
      exact ⟨o, times, hconcat, rfl, hunbroken, htimes⟩
  · rw [hsettle.ssh] at hk
    rcases heval.ssh slot k v hk with ⟨v', hold⟩ | ⟨hslot', hadmits⟩
    · exact h.ssh peer slot k v' hslot hold
    · rwa [hinj _ _ slot hslot hslot']

theorem invariant_concat_compliance (h : Invariant e₀ evs) (update : PermitUpdate) :
    Invariant e₀ (evs ++ [.compliance update]) := by
  have hstep : (step (run step e₀ evs) (.compliance update)).roster = (run step e₀ evs).roster
      ∧ (step (run step e₀ evs) (.compliance update)).slots = (run step e₀ evs).slots := by
    cases update <;> exact ⟨rfl, rfl⟩
  refine ⟨?_, fun peer slot k v hslot hk => ?_, fun peer slot k v hslot hk => ?_⟩
  all_goals rw [run_concat] at *
  · rw [hstep.1, h.roster]
  · rw [flowLookup, hstep.2] at hk
    obtain ⟨o, times, hopened, hpeer, hunbroken, htimes⟩ := h.flows peer slot k v hslot hk
    have hconcat := hopened.concat (.compliance update)
    rw [flowTime, Option.toList_none, List.append_nil] at hconcat
    exact ⟨o, times, hconcat, hpeer, hunbroken, htimes⟩
  · rw [sshLookup, hstep.2] at hk
    exact h.ssh peer slot k v hslot hk

theorem invariant_run (config : Config P) (evs : List Event) : Invariant (new config : Engine P F) evs := by
  induction evs using List.reverseRecOn with
  | nil => exact invariant_nil config
  | append_singleton evs ev ih =>
    cases ev with
    | packet a amb => exact invariant_concat_packet (fun _ _ _ => new_peers_inj) ih a amb
    | compliance update => exact invariant_concat_compliance ih update

end

/-- **Stateful admission.**  An admitted packet is granted, or continues a flow that a granted
packet opened and no gap interrupted. -/
theorem admission_sound (config : Config P) (evs : List Event) (a : Arrival) (amb : Ambient) :
    (admits (run step (Engine.new config : Engine P F) evs) a amb = true →
      Granted (run step (Engine.new config : Engine P F) evs) a amb
      ∨ ∃ o k times tuple, Opened (Engine.new config : Engine P F) evs o k times
        ∧ o.peer = a.peer ∧ fiveTuple o.packet = some tuple
        ∧ fiveTuple a.packet = some (if o.dir = a.dir then tuple else tuple.reverse)
        ∧ Key.of a.dir a.packet = some k ∧ Unbroken (times ++ [a.nowMs]))
    ∧ (verdict (run step (Engine.new config : Engine P F) evs).roster.config a ≠ .permit →
      ∀ slot k, (run step (Engine.new config : Engine P F) evs).flowLookup slot k = none →
        (run step (Engine.new config : Engine P F) (evs ++ [.packet a amb])).flowLookup slot k = none) := by
  have h : Invariant (new config : Engine P F) evs := invariant_run config evs
  constructor
  · intro hadmits
    refine (h.admitted hadmits).imp id fun ⟨slot, k, last, hflow, hlast, hidle⟩ => ?_
    obtain ⟨o, times, hopened, hpeer, hunbroken, htimes⟩ := h.flows a.peer slot k last hflow.1 hlast
    obtain ⟨tuple, ht, ht'⟩ := fiveTuple_of_key hopened.key hflow.2
    exact ⟨o, k, times, tuple, hopened, hpeer, ht, ht', hflow.2, hunbroken.concat htimes hidle⟩
  · intro hrules slot k hnone
    obtain ⟨d, e', heval, hsettle⟩ := packet_spec h a amb
    rw [run_concat]
    by_contra hsome
    obtain ⟨v, hv⟩ := Option.ne_none_iff_exists'.mp hsome
    rcases hsettle.lookup hv with ⟨rfl, -⟩ | ⟨v', hold⟩
    · rw [h.roster] at hrules
      exact hrules (heval.granted rfl).2.1
    · rw [heval.flows, hnone] at hold
      cases hold

end Karst.Datapath.Admission
