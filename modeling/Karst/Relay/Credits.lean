import Karst.Relay.Usage

/-!
# Relay credits

The credit gate of `karst-relay/src/credits.rs`.  For each mapping the controller holds a lease or a
queue of grants; a payload is admitted under the lease or charged to the first grant it fits in.
Grants leave for the control plane once they are spent, or when the relay shuts down.
-/

namespace Karst.Relay

open List hiding Vector

def REFRESH_BEFORE : ℕ := 5000000000
def MAX_OUTSTANDING_MAPPINGS : ℕ := 4096

abbrev MappingKey := Text × Text

def UsageMapping.creditKey (m : UsageMapping) : MappingKey := (m.deployment, m.version)

/-! ### Grants -/

/-- What the issuer knows a grant by. -/
structure GrantIds where
  grantId : Text
  deploymentId : Text
  mappingVersion : Text
  generation : Text

/-- A grant as it is read from the control plane's answer. -/
structure ParsedGrant extends GrantIds where
  remaining : ℕ
  consumed : ℕ
  fits : consumed + remaining ≤ U64_MAX

/-- A grant that is held.  Its serial number tells it from every other; nothing depends on it. -/
structure CreditGrant extends GrantIds where
  serial : ℕ
  remaining : ℕ
  consumed : ℕ
  validUntil : ℕ
  fits : consumed + remaining ≤ U64_MAX

structure SurrenderGrant extends GrantIds where
  serial : ℕ
  consumed : ℕ

namespace CreditGrant

def surrender (g : CreditGrant) : SurrenderGrant :=
  ⟨g.toGrantIds, g.serial, g.consumed⟩

def spend (bytes : ℕ) (g : CreditGrant) : CreditGrant :=
  if h : bytes ≤ g.remaining then
    { g with
      remaining := g.remaining - bytes
      consumed := g.consumed + bytes
      fits := by have := g.fits; omega }
  else g

end CreditGrant

/-- The grant that pays for a payload: the first that has the bytes. -/
def payer (bytes : ℕ) (grants : List CreditGrant) : Option CreditGrant :=
  grants.find? fun g => bytes ≤ g.remaining

def charge (bytes : ℕ) (grants : List CreditGrant) : List CreditGrant :=
  updateFirst (fun g => bytes ≤ g.remaining) (CreditGrant.spend bytes) grants

/-- Send spent grants back, as many as the channel takes; one that it refuses stays where it was. -/
def returnSpent : ℕ → List CreditGrant → List CreditGrant × List SurrenderGrant
  | 0, grants => (grants, [])
  | room + 1, grants =>
    match grants.zipIdx.find? fun e => e.1.remaining = 0 with
    | some e =>
      let rest := returnSpent room (grants.eraseIdx e.2)
      (rest.1, e.1.surrender :: rest.2)
    | none => (grants, [])

/-! ### The controller -/

inductive Allowance where
  | uncapped (validUntil : ℕ)
  | capped (grants : List CreditGrant)

def Allowance.grants : Allowance → List CreditGrant
  | .uncapped _ => []
  | .capped grants => grants

/-- The controller, its clock, and what its channels have taken. -/
structure Controller where
  requestedBytes : ℕ
  now : ℕ
  states : AList fun _ : MappingKey => Allowance
  pending : Finset MappingKey
  closing : Bool
  requests : List UsageMapping
  surrenders : List SurrenderGrant
  /-- How many grants were installed: the serial number of the next. -/
  installed : ℕ

/-- What happens to a controller.  A reservation comes with what its channels have room for. -/
inductive CreditEvent where
  | advance (elapsed : ℕ)
  | installUncapped (mapping : UsageMapping) (validUntil : ℕ)
  | installGrant (mapping : UsageMapping) (validUntil : ℕ) (grant : ParsedGrant)
  | reserve (mapping : UsageMapping) (bytes room : ℕ) (requestTaken : Bool)

namespace Controller

def start (requestedBytes now : ℕ) : Controller := ⟨requestedBytes, now, ∅, ∅, false, [], [], 0⟩

def enqueue (s : Controller) (mapping : UsageMapping) (taken : Bool) : Controller :=
  if mapping.creditKey ∈ s.pending ∨ MAX_OUTSTANDING_MAPPINGS ≤ s.pending.card then s
  else if taken then
    { s with
      pending := insert mapping.creditKey s.pending
      requests := s.requests ++ [mapping] }
  else s

def finishRequest (s : Controller) (mapping : UsageMapping) : Controller :=
  { s with pending := s.pending.erase mapping.creditKey }

def installUncapped (s : Controller) (mapping : UsageMapping) (validUntil : ℕ) : Controller :=
  finishRequest { s with states := s.states.insert mapping.creditKey (.uncapped validUntil) } mapping

def queue (s : Controller) (k : MappingKey) : List CreditGrant :=
  ((s.states.lookup k).map Allowance.grants).getD []

def newGrant (s : Controller) (validUntil : ℕ) (grant : ParsedGrant) : CreditGrant :=
  ⟨grant.toGrantIds, s.installed, grant.remaining, grant.consumed, validUntil, grant.fits⟩

def installGrant (s : Controller) (mapping : UsageMapping) (validUntil : ℕ) (grant : ParsedGrant) :
    Controller :=
  let grants := s.queue mapping.creditKey ++ if s.now < validUntil then [s.newGrant validUntil grant] else []
  finishRequest { s with
      states := s.states.insert mapping.creditKey (.capped grants)
      installed := s.installed + 1 } mapping

def live (s : Controller) (k : MappingKey) : List CreditGrant :=
  (s.queue k).filter fun g => s.now < g.validUntil

def reserveCapped (s : Controller) (k : MappingKey) (bytes room : ℕ) : Controller :=
  let rest := returnSpent room (charge bytes (s.live k))
  { s with
    states := s.states.insert k (.capped rest.1)
    surrenders := s.surrenders ++ rest.2 }

/-- What is left of the grants of a mapping after a payload. -/
def available (s : Controller) (k : MappingKey) (bytes : ℕ) : ℕ :=
  (charge bytes (s.live k)).foldl (fun sum g => min (sum + g.remaining) U64_MAX) 0

/-- Whether a payload may be forwarded, and what that leaves. -/
def reserve (s : Controller) (mapping : UsageMapping) (bytes room : ℕ) (requestTaken : Bool) :
    Controller × Bool :=
  let k := mapping.creditKey
  if bytes = 0 then (s, true)
  else if s.closing then (s, false)
  else
    match s.states.lookup k with
    | some (.uncapped validUntil) =>
      if s.now < validUntil then
        if validUntil - s.now ≤ REFRESH_BEFORE then (s.enqueue mapping requestTaken, true)
        else (s, true)
      else (enqueue { s with states := s.states.erase k } mapping requestTaken, false)
    | some (.capped _) =>
      let admitted := (payer bytes (s.live k)).isSome
      let s' := s.reserveCapped k bytes room
      if s.available k bytes ≤ s.requestedBytes / 4 ∨ admitted = false then
        (s'.enqueue mapping requestTaken, admitted)
      else (s', admitted)
    | none => (enqueue { s with states := s.states.erase k } mapping requestTaken, false)

/-- Close the gate and give back everything that is held. -/
def takeSurrenderableGrants (s : Controller) : Controller × List SurrenderGrant :=
  ({ s with closing := true, states := ∅ },
    s.states.entries.flatMap fun e => e.2.grants.map CreditGrant.surrender)

def step (s : Controller) : CreditEvent → Controller
  | .advance elapsed => { s with now := s.now + elapsed }
  | .installUncapped mapping validUntil => s.installUncapped mapping validUntil
  | .installGrant mapping validUntil grant => s.installGrant mapping validUntil grant
  | .reserve mapping bytes room requestTaken => (s.reserve mapping bytes room requestTaken).1

end Controller

/-! ### Charging and returning -/

namespace CreditGrant

variable (bytes : ℕ) (g : CreditGrant)

@[simp] theorem spend_serial : (g.spend bytes).serial = g.serial := by
  unfold spend
  split <;> rfl

@[simp] theorem spend_ids : (g.spend bytes).toGrantIds = g.toGrantIds := by
  unfold spend
  split <;> rfl

@[simp] theorem spend_validUntil : (g.spend bytes).validUntil = g.validUntil := by
  unfold spend
  split <;> rfl

theorem spend_consumed (h : bytes ≤ g.remaining) : (g.spend bytes).consumed = g.consumed + bytes := by
  rw [spend, dif_pos h]

theorem spend_total : (g.spend bytes).consumed + (g.spend bytes).remaining = g.consumed + g.remaining := by
  unfold spend
  split
  · show g.consumed + bytes + (g.remaining - bytes) = g.consumed + g.remaining
    omega
  · rfl

end CreditGrant

section

variable {bytes : ℕ} {grants : List CreditGrant} {g : CreditGrant}

theorem charge_serials : (charge bytes grants).map CreditGrant.serial = grants.map CreditGrant.serial :=
  map_updateFirst (CreditGrant.spend_serial bytes)

theorem exists_mem_charge (bytes : ℕ) (h : g ∈ grants) :
    ∃ g' ∈ charge bytes grants, g'.serial = g.serial ∧ g'.validUntil = g.validUntil := by
  have htags : (charge bytes grants).map (fun g => (g.serial, g.validUntil))
      = grants.map fun g => (g.serial, g.validUntil) :=
    map_updateFirst fun g => by rw [CreditGrant.spend_serial, CreditGrant.spend_validUntil]
  have hmem := mem_map_of_mem (f := fun g : CreditGrant => (g.serial, g.validUntil)) h
  rw [← htags] at hmem
  obtain ⟨g', hg', htag⟩ := mem_map.mp hmem
  exact ⟨g', hg', Prod.mk.inj htag⟩

theorem payer_eq_some (h : payer bytes grants = some g) : bytes ≤ g.remaining
      ∧ ∃ l₁ l₂, grants = l₁ ++ g :: l₂ ∧ charge bytes grants = l₁ ++ g.spend bytes :: l₂ :=
  ⟨by simpa using find?_some h, updateFirst_of_find? h⟩

theorem charge_of_payer_none (h : payer bytes grants = none) : charge bytes grants = grants :=
  updateFirst_of_find?_none h

theorem returnSpent_perm (room : ℕ) (grants : List CreditGrant) : (returnSpent room grants).1.Sublist grants
      ∧ ∃ gone, (returnSpent room grants).2 = gone.map CreditGrant.surrender
        ∧ grants.Perm ((returnSpent room grants).1 ++ gone) := by
  induction room generalizing grants with
  | zero => exact ⟨Sublist.refl _, [], rfl, by rw [returnSpent, append_nil]⟩
  | succ room ih =>
    rw [returnSpent]
    split
    · rename_i e hfind
      obtain ⟨l₁, l₂, hgrants, herase⟩ := eraseIdx_of_mem_zipIdx (mem_of_find?_eq_some hfind)
      obtain ⟨hsub, gone, hgone, hperm⟩ := ih (grants.eraseIdx e.2)
      have hsplit : grants.Perm (e.1 :: grants.eraseIdx e.2) := by
        rw [herase]
        conv_lhs => rw [hgrants]
        exact perm_middle
      refine ⟨hsub.trans (eraseIdx_sublist grants e.2), e.1 :: gone, ?_, ?_⟩
      · exact congrArg (cons e.1.surrender) hgone
      · exact hsplit.trans ((hperm.cons e.1).trans perm_middle.symm)
    · exact ⟨Sublist.refl _, [], rfl, by rw [append_nil]⟩

end

namespace Controller

variable {s s' : Controller} {k k' : MappingKey}

theorem queue_congr (h : s'.states = s.states) (k : MappingKey) : s'.queue k = s.queue k := by
  rw [queue, h]
  rfl

theorem queue_insert {a : Allowance} (h : s'.states = s.states.insert k a) (k' : MappingKey) :
    s'.queue k' = if k' = k then a.grants else s.queue k' := by
  rw [queue, h]
  split
  · rename_i hk
    rw [hk, AList.lookup_insert]
    rfl
  · rename_i hk
    rw [AList.lookup_insert_ne hk]
    rfl

theorem queue_erase (h : s'.states = s.states.erase k) (hempty : s.queue k = []) (k' : MappingKey) :
    s'.queue k' = s.queue k' := by
  by_cases hk : k' = k
  · rw [hk, hempty, queue, h, AList.lookup_erase]
    rfl
  · rw [queue, h, AList.lookup_erase_ne hk]
    rfl

theorem enqueue_frame (s : Controller) (mapping : UsageMapping) (taken : Bool) :
    (s.enqueue mapping taken).states = s.states ∧ (s.enqueue mapping taken).surrenders = s.surrenders
      ∧ (s.enqueue mapping taken).installed = s.installed ∧ (s.enqueue mapping taken).now = s.now := by
  unfold enqueue
  split
  · exact ⟨rfl, rfl, rfl, rfl⟩
  · split
    · exact ⟨rfl, rfl, rfl, rfl⟩
    · exact ⟨rfl, rfl, rfl, rfl⟩

/-! ### Steps -/

structure Opened where
  key : MappingKey
  grant : ParsedGrant
  validUntil : ℕ

def opens : CreditEvent → Option Opened
  | .installGrant mapping validUntil grant =>
    some ⟨mapping.creditKey, grant, validUntil⟩
  | _ => none

/-- The grant that an event is charged to, by its serial number, and the bytes. -/
def charges (s : Controller) : CreditEvent → Option (ℕ × ℕ)
  | .reserve mapping bytes _ _ =>
    if bytes = 0 ∨ s.closing = true then none
    else (payer bytes (s.live mapping.creditKey)).map fun g => (g.serial, bytes)
  | _ => none

inductive Does (s : Controller) (e : CreditEvent) (s' : Controller) : Prop where
  | lease (hqueue : ∀ k, s'.queue k = s.queue k ∨ s'.queue k = [] ∧ ∃ mapping validUntil,
        e = .installUncapped mapping validUntil ∧ mapping.creditKey = k)
      (hsurrenders : s'.surrenders = s.surrenders) (hinstalled : s'.installed = s.installed)
      (hnow : s.now ≤ s'.now) (hopens : opens e = none) (hcharges : s.charges e = none)
  | install (mapping : UsageMapping) (validUntil : ℕ) (grant : ParsedGrant)
      (hevent : e = .installGrant mapping validUntil grant)
      (hqueue : ∀ k, s'.queue k = if k = mapping.creditKey then s.queue mapping.creditKey
        ++ (if s.now < validUntil then [s.newGrant validUntil grant] else []) else s.queue k)
      (hsurrenders : s'.surrenders = s.surrenders) (hinstalled : s'.installed = s.installed + 1)
      (hnow : s'.now = s.now)
  | spend (k : MappingKey) (bytes room : ℕ)
      (hqueue : ∀ k', s'.queue k' = if k' = k then (returnSpent room (charge bytes (s.live k))).1
        else s.queue k') (hsurrenders : s'.surrenders
        = s.surrenders ++ (returnSpent room (charge bytes (s.live k))).2)
      (hinstalled : s'.installed = s.installed) (hnow : s'.now = s.now) (hopens : opens e = none)
      (hcharges : s.charges e = (payer bytes (s.live k)).map fun g => (g.serial, bytes))

theorem live_nil (h : s.queue k = []) : s.live k = [] := by
  rw [live, h]
  rfl

theorem queue_uncapped {validUntil : ℕ} (h : s.states.lookup k = some (.uncapped validUntil)) :
    s.queue k = [] := by
  rw [queue, h]
  rfl

theorem queue_none (h : s.states.lookup k = none) : s.queue k = [] := by
  rw [queue, h]
  rfl

theorem does_lease {mapping : UsageMapping} {bytes room : ℕ} {taken : Bool}
    (hempty : s.queue mapping.creditKey = []) (hqueue : ∀ k, s'.queue k = s.queue k)
    (hsurrenders : s'.surrenders = s.surrenders) (hinstalled : s'.installed = s.installed)
    (hnow : s'.now = s.now) : Does s (.reserve mapping bytes room taken) s' := by
  refine .lease (fun k => .inl (hqueue k)) hsurrenders hinstalled hnow.ge rfl ?_
  rw [charges, live_nil hempty]
  split <;> rfl

theorem does_spend {mapping : UsageMapping} {bytes room : ℕ} {taken : Bool} (hbytes : bytes ≠ 0)
    (hopen : s.closing ≠ true) {t : Controller}
    (hstates : t.states = (s.reserveCapped mapping.creditKey bytes room).states)
    (hsurrenders : t.surrenders = (s.reserveCapped mapping.creditKey bytes room).surrenders)
    (hinstalled : t.installed = s.installed) (hnow : t.now = s.now) :
    Does s (.reserve mapping bytes room taken) t := by
  refine .spend mapping.creditKey bytes room (queue_insert hstates) hsurrenders hinstalled hnow rfl ?_
  rw [charges, if_neg (not_or.mpr ⟨hbytes, hopen⟩)]

theorem does_reserve (s : Controller) (mapping : UsageMapping) (bytes room : ℕ) (taken : Bool) :
    Does s (.reserve mapping bytes room taken) (s.reserve mapping bytes room taken).1 := by
  have herase (hempty : s.queue mapping.creditKey = []) : Does s (.reserve mapping bytes room taken)
        (enqueue { s with states := s.states.erase mapping.creditKey } mapping taken) := by
    obtain ⟨hstates, hsurrenders, hinstalled, hnow⟩ :=
      enqueue_frame { s with states := s.states.erase mapping.creditKey } mapping taken
    exact does_lease hempty (queue_erase hstates hempty) hsurrenders hinstalled hnow
  fun_cases reserve s mapping bytes room taken with
  | case1 hbytes =>
    refine .lease (fun k => .inl rfl) rfl rfl le_rfl rfl ?_
    rw [charges, if_pos (.inl hbytes)]
  | case2 hbytes hclosing =>
    refine .lease (fun k => .inl rfl) rfl rfl le_rfl rfl ?_
    rw [charges, if_pos (.inr hclosing)]
  | case3 k hbytes hclosing validUntil hlookup =>
    obtain ⟨hstates, hsurrenders, hinstalled, hnow⟩ := s.enqueue_frame mapping taken
    exact does_lease (queue_uncapped hlookup) (queue_congr hstates) hsurrenders hinstalled hnow
  | case4 k hbytes hclosing validUntil hlookup =>
    exact does_lease (queue_uncapped hlookup) (fun _ => rfl) rfl rfl rfl
  | case5 k hbytes hclosing validUntil hlookup => exact herase (queue_uncapped hlookup)
  | case6 k hbytes hclosing =>
    obtain ⟨hstates, hsurrenders, hinstalled, hnow⟩ :=
      (s.reserveCapped mapping.creditKey bytes room).enqueue_frame mapping taken
    exact does_spend hbytes hclosing hstates hsurrenders hinstalled hnow
  | case7 k hbytes hclosing => exact does_spend hbytes hclosing rfl rfl rfl rfl
  | case8 k hbytes hclosing hlookup => exact herase (queue_none hlookup)

theorem does_step (s : Controller) (e : CreditEvent) : Does s e (s.step e) := by
  cases e with
  | advance elapsed =>
    exact .lease (fun k => .inl rfl) rfl rfl (Nat.le_add_right s.now elapsed) rfl rfl
  | installUncapped mapping validUntil =>
    refine .lease ?_ rfl rfl le_rfl rfl rfl
    intro k
    have hstates : (s.installUncapped mapping validUntil).states
        = s.states.insert mapping.creditKey (.uncapped validUntil) := rfl
    have hqueue := queue_insert hstates k
    by_cases hk : k = mapping.creditKey
    · rw [if_pos hk] at hqueue
      exact .inr ⟨hqueue, mapping, validUntil, rfl, hk.symm⟩
    · rw [if_neg hk] at hqueue
      exact .inl hqueue
  | installGrant mapping validUntil grant =>
    have hstates : (s.installGrant mapping validUntil grant).states
        = s.states.insert mapping.creditKey (.capped (s.queue mapping.creditKey
          ++ if s.now < validUntil then [s.newGrant validUntil grant] else [])) := rfl
    exact .install mapping validUntil grant rfl (queue_insert hstates) rfl rfl rfl
  | reserve mapping bytes room taken => exact does_reserve s mapping bytes room taken

end Controller

end Karst.Relay
