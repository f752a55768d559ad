import Karst.Crypto.Reference
import Karst.Datapath.Admission

/-!
# Revocation

Policy changes while packets are being admitted.  `permit` takes a copy of the roster, evaluates the
packet under it and then goes to the flow table; `reconfigure` empties the flow tables and then swaps
the roster.  Any number of both are interleaved here, and every flow remembers which roster it was
recorded under and for which packet.
-/

namespace Karst.Datapath.Engine

open Crypto

variable {P : Primitives} {F : FileTransfers}

/-! ### What a reconfiguration does to the flow tables -/

theorem prepare_flows (previous : Roster P) (config : Config P) (e : Engine P F) (slot : Ref) :
    ∀ k v, ((prepare previous config).run e).1.flowLookup slot k = some v → e.flowLookup slot k = some v := by
  intro k v h
  rcases buildSlots_cell config previous.carried config.peers 0 e.slots slot with hsame | ⟨i, peer, hnew⟩
  · have hcell : ((prepare previous config).run e).1.slots.cell slot = e.slots.cell slot := hsame
    rwa [flowLookup, hcell] at h
  · have hcell : ((prepare previous config).run e).1.slots.cell slot = newSlot config i peer := hnew
    rw [flowLookup, hcell] at h
    cases h

theorem rearmCarried_preserves (previous next : Roster P) (r : Roster P) (flows : Ref → Flows) :
    Prog.Preserves (fun e : Engine P F => e.roster = r ∧ ∀ slot, (e.slots.cell slot).flows = flows slot)
      (rearmCarried previous next) := by
  refine Prog.preserves_forM fun ⟨peer, slot⟩ _ => ?_
  dsimp only
  split_ifs
  · exact Prog.preserves_act fun e ⟨hroster, hflows⟩ =>
      ⟨hroster, forall_writeSlot (Q := fun q s => s.flows = flows q) slot e hflows (hflows slot)⟩
  · exact Prog.preserves_pure

theorem clear_run (peers : List Ref) (e : Engine P F) :
    let e' := ((peers.forM fun slot => (onSlot slot fun s =>
      ({ s with flows := s.flows.clear }, ()) : EngineM P F Unit)).run e).1
    e'.roster = e.roster ∧ ∀ slot k v, e'.flowLookup slot k = some v →
      slot ∉ peers ∧ e.flowLookup slot k = some v := by
  induction peers generalizing e with
  | nil => exact ⟨rfl, fun slot k v h => ⟨List.not_mem_nil, h⟩⟩
  | cons slot rest ih =>
    intro e'
    obtain ⟨hroster, hflows⟩ := ih (e.writeSlot slot
      { e.slots.cell slot with flows := (e.slots.cell slot).flows.clear })
    refine ⟨hroster, fun q k v h => ?_⟩
    obtain ⟨hrest, hbefore⟩ := hflows q k v h
    by_cases hq : q = slot
    · subst hq
      simp only [flowLookup, writeSlot_self] at hbefore
      cases hbefore
    · rw [flowLookup, writeSlot_ne hq] at hbefore
      exact ⟨by simp [hq, hrest], hbefore⟩

/-- **Staging.**  The next roster's flow tables are empty when it is staged, and no table has gained
a flow. -/
theorem stage_spec (previous : Roster P) (config : Config P) (e : Engine P F) :
    ((stage previous config).run e).1.roster = e.roster
    ∧ ∀ slot k v, ((stage previous config).run e).1.flowLookup slot k = some v →
      slot ∉ ((stage previous config).run e).2.peers ∧ e.flowLookup slot k = some v := by
  let e₁ := ((prepare previous config).run e).1
  let next := ((prepare previous config).run e).2
  obtain ⟨e₂, hstage, hroster, hflows⟩ : ∃ e₂ : Engine P F,
      (stage previous config).run e = (((clearFlows next).run e₂).1, next)
      ∧ e₂.roster = e.roster ∧ ∀ slot, (e₂.slots.cell slot).flows = (e₁.slots.cell slot).flows := by
    by_cases hepoch : previous.config.pskEpoch = config.pskEpoch
    · exact ⟨e₁, by simp [stage, hepoch, e₁, next], rfl, fun _ => rfl⟩
    · have hrearm := rearmCarried_preserves previous next e.roster
        (fun slot => (e₁.slots.cell slot).flows) e₁ ⟨rfl, fun _ => rfl⟩
      exact ⟨_, by simp [stage, hepoch, e₁, next], hrearm⟩
  obtain ⟨hclear, hcleared⟩ := clear_run next.peers e₂
  rw [hstage]
  refine ⟨hclear.trans hroster, fun slot k v h => ?_⟩
  obtain ⟨hnot, hbefore⟩ := hcleared slot k v h
  rw [flowLookup, hflows] at hbefore
  exact ⟨hnot, prepare_flows previous config e slot k v hbefore⟩

end Karst.Datapath.Engine

namespace Karst.Datapath.Revocation

open Crypto Engine Runs
open List hiding Vector

variable {P : Primitives} {F : FileTransfers}

/-! ### Interleavings -/

/-- A `permit` under way, with the roster it took a copy of and that roster's generation. -/
inductive Call (P : Primitives) where
  | begun (generation : ℕ) (roster : Roster P) (a : Arrival) (amb : Ambient)
  | evaluated (generation : ℕ) (roster : Roster P) (a : Arrival) (amb : Ambient) (d : Decision)
  | returned (admitted : Bool)

structure World (P : Primitives) (F : FileTransfers) where
  engine : Engine P F
  /-- The rosters replaced so far, in order. -/
  past : List (Roster P)
  permits : List (Call P)
  /-- Rosters whose flow tables have been cleared and that are not installed yet. -/
  staged : List (Roster P)
  /-- The generation a flow was recorded under, and the packet it was recorded for. -/
  origin : Ref → Key → Option (ℕ × Arrival)

inductive Event (P : Primitives) where
  /-- A `permit` begins: it copies the roster. -/
  | snapshot (a : Arrival) (amb : Ambient)
  | evaluate (call : ℕ)
  /-- The flow table's part of a `permit`. -/
  | settle (call : ℕ)
  /-- A reconfiguration begins and clears the flow tables. -/
  | stage (config : Config P)
  /-- A staged roster is installed and the reconfiguration returns. -/
  | install (i : ℕ)

/-- Only a packet that is granted records its flow. -/
def remember (origin : Ref → Key → Option (ℕ × Arrival)) (generation : ℕ) (roster : Roster P)
    (a : Arrival) (d : Decision) (slot : Ref) (k : Key) : Option (ℕ × Arrival) :=
  if d = .granted ∧ roster.peers[a.peer]? = some slot ∧ Key.of a.dir a.packet = some k then
    some (generation, a)
  else origin slot k

namespace World

def initial (config : Config P) : World P F := ⟨Engine.new config, [], [], [], fun _ _ => none⟩

def rosterAt (w : World P F) (generation : ℕ) : Option (Roster P) :=
  (w.past ++ [w.engine.roster])[generation]?

def step (w : World P F) : Event P → World P F
  | .snapshot a amb =>
    { w with permits := w.permits ++ [.begun w.past.length w.engine.roster a amb] }
  | .evaluate call =>
    match w.permits[call]? with
    | some (.begun g roster a amb) =>
      let (engine, d) := (evaluate roster a amb).run w.engine
      { w with engine, permits := w.permits.set call (.evaluated g roster a amb d) }
    | _ => w
  | .settle call =>
    match w.permits[call]? with
    | some (.evaluated g roster a amb d) =>
      let (engine, ok) := (settle roster a amb d).run w.engine
      { w with engine, permits := w.permits.set call (.returned ok)
               origin := remember w.origin g roster a d }
    | _ => w
  | .stage config =>
    let (engine, next) := (stage w.engine.roster config).run w.engine
    { w with engine, staged := w.staged ++ [next] }
  | .install i =>
    match w.staged[i]? with
    | some next =>
      { w with engine := ((install next).run w.engine).1, past := w.past ++ [w.engine.roster]
               staged := w.staged.eraseIdx i }
    | none => w

end World

/-! ### Revoked flows -/

/-- A roster's rules permit the packet from, or to, the peer that a slot is for. -/
def rulesPermit (roster : Roster P) (slot : Ref) (o : Arrival) : Bool :=
  (List.range roster.peers.length).any fun i =>
    roster.peers[i]? == some slot && verdict roster.config { o with peer := i } == .permit

/-- The call's next step admits its packet by a flow recorded under a roster older than one that was in
force when the call began, and whose rules do not permit what the flow was recorded for. -/
def admitsRevoked (w : World P F) (call : ℕ) : Bool :=
  match w.permits[call]? with
  | some (.evaluated g roster a amb .ask) =>
    match roster.peers[a.peer]?, Key.of a.dir a.packet with
    | some slot, some k =>
      ((settle roster a amb .ask).run w.engine).2 && (w.origin slot k).any fun (g₀, o) =>
        (List.range (g + 1)).any fun g₂ =>
          decide (g₀ < g₂) && (w.rosterAt g₂).any fun roster₂ => !rulesPermit roster₂ slot o
    | _, _ => false
  | _ => false

/-- A flow is recorded only under the roster in force, and not while the flow's slot waits, cleared, for
another roster to be installed. -/
def recordsInForce (w : World P F) : Event P → Bool
  | .settle call =>
    match w.permits[call]? with
    | some (.evaluated g roster a _ .granted) =>
      (roster.peers[a.peer]?).all fun slot =>
        g == w.past.length && w.staged.all fun next => !next.peers.contains slot
    | _ => true
  | _ => true

def Call.copy : Call P → Option (ℕ × Roster P)
  | .begun g roster _ _ => some (g, roster)
  | .evaluated g roster _ _ _ => some (g, roster)
  | .returned _ => none

/-- Copies are of rosters that were in force; the flows of a roster's slots were recorded under it or
later; the slots of a staged roster have none. -/
structure Invariant (w : World P F) : Prop where
  copies : ∀ c ∈ w.permits, ∀ g roster, c.copy = some (g, roster) → w.rosterAt g = some roster
  flows : ∀ g roster slot k v, w.rosterAt g = some roster → slot ∈ roster.peers →
    w.engine.flowLookup slot k = some v → ∃ g₀ o, w.origin slot k = some (g₀, o) ∧ g ≤ g₀
  staged : ∀ next ∈ w.staged, ∀ slot ∈ next.peers, ∀ k, w.engine.flowLookup slot k = none

variable {w : World P F}

theorem World.rosterAt_le {g : ℕ} {roster : Roster P} (h : w.rosterAt g = some roster) :
    g ≤ w.past.length := by
  obtain ⟨hlt, -⟩ := List.getElem?_eq_some_iff.mp h
  simpa [Nat.lt_succ_iff] using hlt

theorem invariant_initial (config : Config P) : Invariant (World.initial config : World P F) where
  copies _ hc := absurd hc not_mem_nil
  flows g roster slot k v _ _ h := by
    rw [World.initial, (Admission.new_lookups config slot k).1] at h
    cases h
  staged _ hnext := absurd hnext not_mem_nil

variable (h : Invariant w)
include h

theorem Invariant.of_flows {w' : World P F} (hpast : w'.past = w.past)
    (hroster : w'.engine.roster = w.engine.roster) (horigin : w'.origin = w.origin)
    (hcopies : ∀ c ∈ w'.permits, ∀ x, c.copy = some x →
      (∃ c' ∈ w.permits, c'.copy = some x) ∨ x = (w.past.length, w.engine.roster))
    (hflows : ∀ slot k v, w'.engine.flowLookup slot k = some v → w.engine.flowLookup slot k = some v)
    (hstaged : ∀ next ∈ w'.staged,
      next ∈ w.staged ∨ ∀ slot ∈ next.peers, ∀ k, w'.engine.flowLookup slot k = none) :
    Invariant w' := by
  have hat : w'.rosterAt = w.rosterAt := by
    funext g
    rw [World.rosterAt, World.rosterAt, hpast, hroster]
  refine ⟨fun c hc g roster hcopy => ?_, fun g roster slot k v hg hslot hk => ?_,
    fun next hnext slot hslot k => ?_⟩
  · rw [hat]
    rcases hcopies c hc _ hcopy with ⟨c', hc', hcopy'⟩ | hlive
    · exact h.copies c' hc' g roster hcopy'
    · cases hlive
      simp [World.rosterAt]
  · rw [hat] at hg
    rw [horigin]
    exact h.flows g roster slot k v hg hslot (hflows slot k v hk)
  · rcases hstaged next hnext with hold | hempty
    · refine Option.eq_none_iff_forall_ne_some.mpr fun v hv => ?_
      have := hflows slot k v hv
      rw [h.staged next hold slot hslot k] at this
      cases this
    · exact hempty slot hslot k

theorem invariant_snapshot (a : Arrival) (amb : Ambient) : Invariant (w.step (.snapshot a amb)) := by
  refine h.of_flows rfl rfl rfl (fun c hc x hcopy => ?_) (fun _ _ _ hk => hk) fun _ hn => .inl hn
  rcases mem_append.mp hc with hold | hnew
  · exact .inl ⟨c, hold, hcopy⟩
  · rw [mem_singleton.mp hnew] at hcopy
    exact .inr (Option.some.inj hcopy).symm

theorem invariant_evaluate (call : ℕ) : Invariant (w.step (.evaluate call)) := by
  rw [World.step]
  split
  · rename_i g roster a amb hcall
    have hspec := evaluate_spec roster a amb w.engine
    refine h.of_flows rfl hspec.roster rfl (fun c hc x hcopy => ?_) (fun slot k v hk => ?_)
      fun _ hn => .inl hn
    · left
      rcases mem_or_eq_of_mem_set hc with hold | rfl
      · exact ⟨c, hold, hcopy⟩
      · exact ⟨_, mem_of_getElem? hcall, hcopy⟩
    · rwa [hspec.flows] at hk
  · exact h

theorem invariant_stage (config : Config P) : Invariant (w.step (.stage config)) := by
  obtain ⟨hroster, hflows⟩ := stage_spec w.engine.roster config w.engine
  refine h.of_flows rfl hroster rfl (fun c hc x hcopy => .inl ⟨c, hc, hcopy⟩)
    (fun slot k v hk => (hflows slot k v hk).2) fun next hnext => ?_
  rcases mem_append.mp hnext with hold | hnew
  · exact .inl hold
  · rw [mem_singleton.mp hnew]
    refine .inr fun slot hslot k => Option.eq_none_iff_forall_ne_some.mpr fun v hv => ?_
    exact (hflows slot k v hv).1 hslot

theorem invariant_install (i : ℕ) : Invariant (w.step (.install i)) := by
  rw [World.step]
  split
  case h_2 => exact h
  case h_1 next hstaged =>
    have hat g roster (hg : w.rosterAt g = some roster) :
        (w.past ++ [w.engine.roster] ++ [next])[g]? = some roster := by
      rw [List.getElem?_append_left (by simpa [Nat.lt_succ_iff] using World.rosterAt_le hg)]
      exact hg
    refine ⟨fun c hc g roster hcopy => ?_, fun g roster slot k v hg hslot hk => ?_,
      fun n hn slot hslot k => ?_⟩
    · exact hat g roster (h.copies c hc g roster hcopy)
    · -- the roster installed brings no flows
      have hg : (w.past ++ [w.engine.roster] ++ [next])[g]? = some roster := hg
      by_cases hlt : g < (w.past ++ [w.engine.roster]).length
      · rw [List.getElem?_append_left hlt] at hg
        exact h.flows g roster slot k v hg hslot hk
      · rw [List.getElem?_append_right (Nat.le_of_not_lt hlt)] at hg
        obtain rfl : roster = next := mem_singleton.mp (mem_of_getElem? hg)
        have hnone := h.staged roster (mem_of_getElem? hstaged) slot hslot k
        exact absurd (hnone.symm.trans hk) (by simp)
    · exact h.staged n (mem_of_mem_eraseIdx hn) slot hslot k

theorem invariant_settle {call : ℕ}
    (hok : recordsInForce w (.settle call) = true) : Invariant (w.step (.settle call)) := by
  rw [World.step]
  split
  case h_2 => exact h
  case h_1 g roster a amb d hcall =>
    have hspec := settle_spec roster a amb d w.engine
    have hat : ∀ g', ((w.past ++ [((settle roster a amb d).run w.engine).1.roster])[g']?)
        = w.rosterAt g' := fun g' => by rw [hspec.roster, World.rosterAt]
    -- a granted packet's flow is of a slot that is not staged, and of the roster in force
    have hforce slot (hd : d = .granted) (hslot : roster.peers[a.peer]? = some slot) :
        g = w.past.length ∧ ∀ next ∈ w.staged, slot ∉ next.peers := by
      subst hd
      simpa [recordsInForce, hcall, hslot] using hok
    refine ⟨fun c hc g' r hcopy => ?_, fun g' r slot k v hg' hslot hk => ?_,
      fun next hnext slot hslot k => ?_⟩
    · rw [World.rosterAt, hat]
      rcases mem_or_eq_of_mem_set hc with hold | rfl
      · exact h.copies c hold g' r hcopy
      · cases hcopy
    · rw [World.rosterAt, hat] at hg'
      by_cases hnew : d = .granted ∧ roster.peers[a.peer]? = some slot ∧ Key.of a.dir a.packet = some k
      · refine ⟨g, a, if_pos hnew, ?_⟩
        rw [(hforce slot hnew.1 hnew.2.1).1]
        exact World.rosterAt_le hg'
      · obtain ⟨v', hold⟩ := (hspec.lookup hk).resolve_left hnew
        obtain ⟨g₀, o, ho, hle⟩ := h.flows g' r slot k v' hg' hslot hold
        exact ⟨g₀, o, (if_neg hnew).trans ho, hle⟩
    · refine Option.eq_none_iff_forall_ne_some.mpr fun v hv => ?_
      rcases hspec.lookup hv with ⟨hd, hflow⟩ | ⟨v', hold⟩
      · exact (hforce slot hd hflow.1).2 next hnext hslot
      · rw [h.staged next hnext slot hslot k] at hold
        cases hold

omit h

theorem invariant_step {ev : Event P} (hok : recordsInForce w ev = true) (h : Invariant w) :
    Invariant (w.step ev) := by
  cases ev with
  | snapshot a amb => exact invariant_snapshot h a amb
  | evaluate call => exact invariant_evaluate h call
  | settle call => exact invariant_settle h hok
  | stage config => exact invariant_stage h config
  | install i => exact invariant_install h i

theorem Invariant.not_admitsRevoked (h : Invariant w) (call : ℕ) : admitsRevoked w call = false := by
  rw [admitsRevoked]
  split
  case h_2 => rfl
  case h_1 g roster a amb hcall =>
    split
    case h_2 => rfl
    case h_1 slot k hslot hkey =>
      rw [Bool.eq_false_iff]
      intro hboth
      obtain ⟨hadmits, horigin⟩ := Bool.and_eq_true_iff.mp hboth
      have hmem := mem_of_getElem? hcall
      rcases (settle_spec roster a amb .ask w.engine).admitted hadmits with
        hd | ⟨-, slot', k', last, hflow, hlast, -⟩
      · cases hd
      · obtain rfl : slot = slot' := Option.some.inj (hslot.symm.trans hflow.1)
        obtain rfl : k = k' := Option.some.inj (hkey.symm.trans hflow.2)
        obtain ⟨g₀, o, ho, hle⟩ := h.flows g roster slot k last (h.copies _ hmem g roster rfl)
          (mem_of_getElem? hslot) hlast
        simp only [ho, Option.any_some, any_eq_true, mem_range, Bool.and_eq_true,
          decide_eq_true_eq] at horigin
        omega

/-! ### A peer whose access is revoked -/

def onePeer (ingress : List Rule) : Config reference where
  keys := ⟨(0 : UInt8), (0 : UInt8)⟩
  addresses := [⟨.v4 0x0A000001#32, 24⟩]
  pskEpoch := 0
  relays := []
  gatewayForwarding := false
  peers := [⟨[], [], ⟨(1 : UInt8), Vector.replicate 32 0⟩, none, [], none, none⟩]
  routes := .empty
  filter := ⟨some ingress, some [], [], false, false⟩
  sshFilter := .absent

def permissive : Config reference := onePeer [⟨.any, [], [⟨0, 65535⟩]⟩]

def packet : Bytes :=
  [0x45, 0, 0, 24, 0, 0, 0, 0, 64, 6, 0, 0, 10, 0, 0, 2, 10, 0, 0, 1, 0x13, 0x88, 0, 80]

def arrival (nowMs : ℕ) : Arrival := ⟨.inbound, 0, packet, nowMs⟩

def ambient : Ambient := ⟨0, .asStored⟩

/-- **Revocation.**  Where flows are recorded only under the roster in force, no flow that a policy
has revoked since admits a packet. -/
theorem revocation_effective (config : Config P) {evs : List (Event P)}
    (h : Along World.step recordsInForce (World.initial config : World P F) evs = true) (call : ℕ) :
    admitsRevoked (run World.step (World.initial config : World P F) evs) call = false :=
  (along_induction (fun _ _ hok => invariant_step hok) (invariant_initial config) h).not_admitsRevoked call

theorem revocation_serial :
    Along World.step recordsInForce (World.initial permissive : World reference .silent)
      [.snapshot (arrival 1) ambient, .evaluate 0, .settle 0, .stage (onePeer []), .install 0,
        .snapshot (arrival 2) ambient, .evaluate 1] = true
    ∧ admitsRevoked (run World.step (World.initial permissive : World reference .silent)
      [.snapshot (arrival 1) ambient, .evaluate 0, .settle 0, .stage (onePeer []), .install 0,
        .snapshot (arrival 2) ambient, .evaluate 1]) 1 = false :=
  ⟨by decide +kernel, revocation_effective permissive (by decide +kernel) 1⟩

/-- **The race.**  A packet is evaluated, the peer's access is revoked, and only then is the flow
recorded.  It admits the peer's next packet. -/
theorem revocation_raced : admitsRevoked (run World.step (World.initial permissive : World reference .silent)
      [.snapshot (arrival 1) ambient, .evaluate 0, .stage (onePeer []), .install 0, .settle 0,
        .snapshot (arrival 2) ambient, .evaluate 1]) 1 = true := by
  decide +kernel

end Karst.Datapath.Revocation
