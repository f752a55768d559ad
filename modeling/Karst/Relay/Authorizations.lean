import Karst.Relay.UsageParser

/-!
# The authorization history of managed relays

Producers, allowed mappings and their authorization intervals in `relayusage/store.go`.  Every call is
one transaction and changes nothing when it fails; what the clock reads and what the mapping ledger
holds are given with it.  The intervals of a mapping are kept with its row, in the order of their ids.
-/

namespace Karst.Relay.Authorizations

open Except Go Runs
open List hiding Vector Disjoint

structure Key where
  relay : Bytes
  deployment : Bytes
  version : Bytes
  deriving DecidableEq

structure ManagedProducer where
  deployment : Bytes
  identityKey : Bytes
  enabled : Bool

/-- `producerMappingInterval`, without its key. -/
structure Interval where
  account : Bytes
  startUS : ℤ
  endUS : Option ℤ

/-- The instants from the start on, up to the end if there is one. -/
def Interval.times (i : Interval) : Set ℤ := {t | i.startUS ≤ t ∧ ∀ e ∈ i.endUS, t < e}

structure AllowedMapping where
  key : Key
  enabled : Bool
  intervals : List Interval

inductive Error where
  | producerMissing
  | producerConflict
  | mappingNotAllowed
  | mapping
  | clockRegressed

structure Store where
  producers : AList fun _ : Bytes => ManagedProducer
  mappings : List AllowedMapping

inductive Op where
  | authorizeProducer (publicKey deployment : Bytes)
  | allowMapping (k : Key)
  | revokeMapping (k : Key)
  | revokeProducer (relay : Bytes)

structure Call where
  op : Op
  now : ℤ
  /-- The account of a mapping, by deployment and version. -/
  ledger : Bytes → Bytes → Option Bytes

def PublicKeySize : ℕ := 2592

/-- `mappingLabel`, and `validText` of the store. -/
def mappingLabel (limit : ℕ) (value : Bytes) : Bool :=
  0 < value.length && value.length ≤ limit && validText value

def Call.resolveRelayMapping (c : Call) (k : Key) : Except Error Bytes :=
  if !mappingLabel 128 k.deployment ∨ k.version.length ≠ 64
      ∨ (decodeHex k.version).map encodeHex ≠ some k.version then .error .mapping
  else okOr .mapping (c.ledger k.deployment k.version)

namespace AllowedMapping

/-- `OnConflict` does nothing where there is an interval with this start. -/
def startMappingInterval (account : Bytes) (now : ℤ) (m : AllowedMapping) :
    Except Error AllowedMapping :=
  match m.intervals.find? (·.endUS.isNone) with
  | some active => if active.account ≠ account then .error .mappingNotAllowed else .ok m
  | none =>
    if m.intervals.any (·.startUS = now) then .ok m
    else .ok { m with intervals := m.intervals ++ [⟨account, now, none⟩] }

def closeAuthorizationIntervals (now : ℤ) (m : AllowedMapping) : Except Error AllowedMapping :=
  if m.intervals.any fun i => i.endUS.isNone && now ≤ i.startUS then .error .clockRegressed
  else .ok { m with intervals := m.intervals.map fun i => { i with endUS := i.endUS.or (some now) } }

/-- An interval is open, or all have ended by now. -/
def timely (now : ℤ) (m : AllowedMapping) : Bool :=
  m.intervals.any (·.endUS.isNone) || m.intervals.all (·.endUS.all (· ≤ now))

end AllowedMapping

namespace Store

def lookup (s : Store) (k : Key) : Option AllowedMapping := s.mappings.find? (·.key = k)

def setMapping (s : Store) (m : AllowedMapping) : Store :=
  { s with mappings := m :: s.mappings.filter (·.key ≠ m.key) }

def setProducer (s : Store) (relay : Bytes) (p : ManagedProducer) : Store :=
  { s with producers := s.producers.insert relay p }

def startEnabledMappingIntervals (relay : Bytes) (c : Call) (s : Store) : Except Error Store := do
  let mappings ← s.mappings.mapM fun m =>
    if m.key.relay = relay ∧ m.enabled then do
      let account ← c.resolveRelayMapping m.key
      m.startMappingInterval account c.now
    else .ok m
  return { s with mappings }

def closeProducerIntervals (relay : Bytes) (now : ℤ) (s : Store) : Except Error Store := do
  let mappings ← s.mappings.mapM fun m =>
    if m.key.relay = relay then m.closeAuthorizationIntervals now else .ok m
  return { s with mappings }

def authorizeProducer (relayID : Bytes → Bytes) (publicKey deployment : Bytes) (c : Call)
    (s : Store) : Except Error Store :=
  if publicKey.length ≠ PublicKeySize ∨ !mappingLabel 128 deployment then .error .producerConflict
  else
    match s.producers.lookup (relayID publicKey) with
    | some existing =>
      if existing.identityKey ≠ base64Encode publicKey ∨ existing.deployment ≠ deployment then
        .error .producerConflict
      else startEnabledMappingIntervals (relayID publicKey) c
        (s.setProducer (relayID publicKey) { existing with enabled := true })
    | none => .ok (s.setProducer (relayID publicKey) ⟨deployment, base64Encode publicKey, true⟩)

/-- A row that is enabled already is written as it was. -/
def allowMapping (k : Key) (c : Call) (s : Store) : Except Error Store := do
  let producer ← okOr .producerMissing ((s.producers.lookup k.relay).filter (·.enabled))
  if producer.deployment ≠ k.deployment then .error .mappingNotAllowed
  else
    let account ← c.resolveRelayMapping k
    let row := { (s.lookup k).getD ⟨k, true, []⟩ with enabled := true }
    let row ← row.startMappingInterval account c.now
    return s.setMapping row

def revokeMapping (k : Key) (now : ℤ) (s : Store) : Except Error Store := do
  let mapping ← okOr .mappingNotAllowed (s.lookup k)
  if mapping.enabled then
    let mapping ← mapping.closeAuthorizationIntervals now
    return s.setMapping { mapping with enabled := false }
  else return s

def revokeProducer (relay : Bytes) (now : ℤ) (s : Store) : Except Error Store := do
  let producer ← okOr .producerMissing (s.producers.lookup relay)
  if producer.enabled then
    let s ← s.closeProducerIntervals relay now
    return s.setProducer relay { producer with enabled := false }
  else return s

variable (relayID : Bytes → Bytes)

def perform (s : Store) (c : Call) : Except Error Store :=
  match c.op with
  | .authorizeProducer publicKey deployment => s.authorizeProducer relayID publicKey deployment c
  | .allowMapping k => s.allowMapping k c
  | .revokeMapping k => s.revokeMapping k c.now
  | .revokeProducer relay => s.revokeProducer relay c.now

/-- A call that fails is rolled back. -/
def step (s : Store) (c : Call) : Store := (s.perform relayID c).toOption.getD s

def empty : Store := ⟨∅, []⟩

def intervals (s : Store) (k : Key) : List Interval := (s.lookup k).elim [] (·.intervals)

/-- Both the mapping and its producer are enabled. -/
def enabled (s : Store) (k : Key) : Bool :=
  (s.lookup k).any (·.enabled) && (s.producers.lookup k.relay).any (·.enabled)

/-- The mappings that a call may open an interval of. -/
def opens (c : Call) (m : AllowedMapping) : Bool :=
  match c.op with
  | .authorizeProducer publicKey _ => m.key.relay = relayID publicKey && m.enabled
  | .allowMapping k => m.key = k
  | _ => false

/-- No interval is opened before an earlier one of its mapping has ended; a call that fails opens none. -/
def timely (s : Store) (c : Call) : Bool :=
  (s.mappings.all fun m => !opens relayID c m || m.timely c.now) || !(s.perform relayID c).isOk

end Store

/-! ### One mapping -/

section

variable {is : List Interval} {on : Bool} {m m' : AllowedMapping} {now : ℤ}

/-- Oldest first: each ends before the next begins. -/
structure History (is : List Interval) (on : Bool) : Prop where
  ordered : is.Pairwise fun i j => ∃ e, i.endUS = some e ∧ e ≤ j.startUS
  nonempty : ∀ i ∈ is, ∀ e, i.endUS = some e → i.startUS < e
  open_iff : (∃ i ∈ is, i.endUS = none) ↔ on = true

theorem History.opened (h : History is on) (account : Bytes)
    (hends : ∀ i ∈ is, ∃ e, i.endUS = some e ∧ e ≤ now) : History (is ++ [⟨account, now, none⟩]) true where
  ordered := by
    refine pairwise_append.mpr ⟨h.ordered, pairwise_singleton _ _, fun i hi j hj => ?_⟩
    obtain rfl := mem_singleton.mp hj
    exact hends i hi
  nonempty i hi e he := by
    rcases mem_append.mp hi with hi | hi
    · exact h.nonempty i hi e he
    · rw [mem_singleton.mp hi] at he
      cases he
  open_iff := iff_of_true ⟨_, mem_append_right _ mem_cons_self, rfl⟩ rfl

theorem countP_open_le (h : is.Pairwise fun i j => ∃ e, i.endUS = some e ∧ e ≤ j.startUS) :
    is.countP (·.endUS.isNone) ≤ 1 := by
  induction is with
  | nil => exact Nat.zero_le 1
  | cons i is ih =>
    obtain ⟨hi, his⟩ := pairwise_cons.mp h
    cases is with
    | nil => exact countP_le_length
    | cons j is =>
      obtain ⟨e, he, -⟩ := hi j mem_cons_self
      rw [countP_cons, he]
      exact ih his

theorem disjoint_times {i j : Interval} (h : ∃ e, i.endUS = some e ∧ e ≤ j.startUS) :
    Disjoint i.times j.times := by
  obtain ⟨e, he, hle⟩ := h
  refine Set.disjoint_left.mpr fun t hi hj => ?_
  have hlt := hi.2 e he
  have hge := hj.1
  omega

theorem History.times_nonempty (h : History is on) : ∀ i ∈ is, i.times.Nonempty := by
  intro i hi
  exact ⟨i.startUS, le_rfl, fun e he => h.nonempty i hi e he⟩

theorem History.closed (h : History is on) (hlate : ∀ i ∈ is, i.endUS = none → i.startUS < now) :
    History (is.map fun i => { i with endUS := i.endUS.or (some now) }) false where
  ordered := by
    refine pairwise_map.mpr (h.ordered.imp fun {i j} ⟨e, he, hle⟩ => ⟨e, ?_, hle⟩)
    rw [he, Option.some_or]
  nonempty i hi e he := by
    obtain ⟨j, hj, rfl⟩ := mem_map.mp hi
    cases hend : j.endUS with
    | none =>
      simp only [hend, Option.none_or, Option.some.injEq] at he
      exact he ▸ hlate j hj hend
    | some e' =>
      simp only [hend, Option.some_or, Option.some.injEq] at he
      exact he ▸ h.nonempty j hj e' hend
  open_iff := by
    refine iff_of_false ?_ Bool.false_ne_true
    rintro ⟨i, hi, hopen⟩
    obtain ⟨j, -, rfl⟩ := mem_map.mp hi
    simp at hopen

theorem startMappingInterval_spec {account : Bytes}
    (h : m.startMappingInterval account now = .ok m') (hist : History m.intervals on)
    (ht : m.timely now = true) : m'.key = m.key ∧ m'.enabled = m.enabled ∧ History m'.intervals true := by
  unfold AllowedMapping.startMappingInterval at h
  split at h
  next active hfind =>
    split_ifs at h
    obtain rfl := ok.inj h
    have hactive : active.endUS = none := by simpa using find?_some hfind
    have hon := hist.open_iff.mp ⟨active, mem_of_find?_eq_some hfind, hactive⟩
    exact ⟨rfl, rfl, hon ▸ hist⟩
  next hfind =>
    have hends (i : Interval) (hi : i ∈ m.intervals) : ∃ e, i.endUS = some e ∧ e ≤ now := by
      have hclosed := find?_eq_none.mp hfind
      have hall : m.intervals.all (·.endUS.all (· ≤ now)) = true :=
        ((Bool.or_eq_true _ _).mp ht).resolve_left (by simpa using hclosed)
      have hi' := all_eq_true.mp hall i hi
      cases he : i.endUS with
      | none => exact absurd (he ▸ rfl) (hclosed i hi)
      | some e => exact ⟨e, rfl, by simpa [he] using hi'⟩
    split_ifs at h with hconflict
    · -- an interval with this start would have ended no later than it began
      obtain ⟨i, hi, hstart⟩ := any_eq_true.mp hconflict
      obtain ⟨e, he, hle⟩ := hends i hi
      have hlt := hist.nonempty i hi e he
      have hstart := of_decide_eq_true hstart
      omega
    · obtain rfl := ok.inj h
      exact ⟨rfl, rfl, hist.opened account hends⟩

theorem closeAuthorizationIntervals_spec (h : m.closeAuthorizationIntervals now = .ok m')
    (hist : History m.intervals on) : m'.key = m.key ∧ History m'.intervals false := by
  unfold AllowedMapping.closeAuthorizationIntervals at h
  split_ifs at h with hlate
  obtain rfl := ok.inj h
  refine ⟨rfl, hist.closed fun i hi hopen => ?_⟩
  by_contra hle
  exact hlate (any_eq_true.mpr ⟨i, hi, by simp [hopen, not_lt.mp hle]⟩)

end

/-! ### The store -/

namespace Store

variable {relayID : Bytes → Bytes} {s s' : Store} {c : Call}

/-- A mapping has a producer, and its history says whether both are enabled. -/
def Kept (s : Store) (m : AllowedMapping) : Prop :=
  ∃ p, s.producers.lookup m.key.relay = some p ∧ History m.intervals (m.enabled && p.enabled)

def Inv (s : Store) : Prop := ∀ m ∈ s.mappings, s.Kept m

theorem mem_of_lookup {k : Key} {m : AllowedMapping} (h : s.lookup k = some m) : m ∈ s.mappings ∧ m.key = k :=
  ⟨mem_of_find?_eq_some h, by simpa using find?_some h⟩

theorem exists_of_mapM {f : AllowedMapping → Except Error AllowedMapping} {l l' : List AllowedMapping}
    (h : l.mapM f = .ok l') : ∀ m' ∈ l', ∃ m ∈ l, f m = .ok m' := by
  induction l generalizing l' with
  | nil =>
    obtain rfl := ok.inj h
    simp
  | cons m l ih =>
    rw [mapM_cons] at h
    obtain ⟨m₁, hm₁, h⟩ := bind_eq_ok.mp h
    obtain ⟨l₁, hl₁, h⟩ := bind_eq_ok.mp h
    obtain rfl := ok.inj h
    rw [forall_mem_cons]
    refine ⟨⟨m, mem_cons_self, hm₁⟩, fun m' hm' => ?_⟩
    obtain ⟨m, hm, hf⟩ := ih hl₁ m' hm'
    exact ⟨m, mem_cons_of_mem _ hm, hf⟩

variable (inv : Inv s)

include inv

theorem Inv.setMapping {m : AllowedMapping} (h : s.Kept m) : Inv (s.setMapping m) := by
  intro m' hm'
  rcases mem_cons.mp hm' with rfl | hm'
  · exact h
  · exact inv m' (mem_filter.mp hm').1

omit inv in
theorem Kept.setProducer {m : AllowedMapping} {relay : Bytes} {p : ManagedProducer} (h : s.Kept m)
    (hrelay : m.key.relay ≠ relay) : (s.setProducer relay p).Kept m := by
  obtain ⟨p', hp', hist⟩ := h
  exact ⟨p', (AList.lookup_insert_ne hrelay).trans hp', hist⟩

theorem inv_authorizeProducer {publicKey deployment : Bytes}
    (h : s.authorizeProducer relayID publicKey deployment c = .ok s')
    (ht : ∀ m ∈ s.mappings, m.key.relay = relayID publicKey → m.enabled = true →
      m.timely c.now = true) : Inv s' := by
  unfold authorizeProducer at h
  split_ifs at h
  split at h
  next existing hexisting =>
    split_ifs at h
    obtain ⟨rows, hrows, h⟩ := bind_eq_ok.mp h
    obtain rfl := ok.inj h
    intro m' hm'
    obtain ⟨m, hm, hf⟩ := exists_of_mapM hrows m' hm'
    obtain ⟨p, hp, hist⟩ := inv m hm
    split_ifs at hf with hopens
    · obtain ⟨hrelay, hon⟩ := hopens
      obtain ⟨account, -, hf⟩ := bind_eq_ok.mp hf
      obtain ⟨hkey, hsame, hist⟩ := startMappingInterval_spec hf hist (ht m hm hrelay hon)
      refine ⟨{ existing with enabled := true }, ?_, ?_⟩
      · rw [hkey, hrelay]
        exact AList.lookup_insert _
      · rw [hsame, hon]
        exact hist
    · obtain rfl := ok.inj hf
      by_cases hrelay : m.key.relay = relayID publicKey
      · refine ⟨{ existing with enabled := true }, ?_, ?_⟩
        · rw [hrelay]
          exact AList.lookup_insert _
        · rw [Bool.eq_false_iff.mpr fun hon => hopens ⟨hrelay, hon⟩] at hist ⊢
          exact hist
      · exact (inv m hm).setProducer hrelay
  next hnew =>
    obtain rfl := ok.inj h
    intro m hm
    refine (inv m hm).setProducer fun hrelay => ?_
    obtain ⟨p, hp, -⟩ := inv m hm
    rw [hrelay, hnew] at hp
    cases hp

theorem inv_allowMapping {k : Key} (h : s.allowMapping k c = .ok s')
    (ht : ∀ m ∈ s.mappings, m.key = k → m.timely c.now = true) : Inv s' := by
  obtain ⟨p, hp, h⟩ := bind_eq_ok.mp h
  obtain ⟨hp, hon⟩ := Option.filter_eq_some_iff.mp (okOr_eq_ok.mp hp)
  obtain ⟨-, h⟩ := guard_eq_ok.mp h
  obtain ⟨account, -, h⟩ := bind_eq_ok.mp h
  obtain ⟨row, hrow, h⟩ := bind_eq_ok.mp h
  obtain rfl := ok.inj h
  have hbefore : ∃ m on, (s.lookup k).getD ⟨k, true, []⟩ = m ∧ m.key = k
      ∧ History m.intervals on ∧ m.timely c.now = true := by
    cases hm : s.lookup k with
    | none => exact ⟨_, false, rfl, rfl, ⟨Pairwise.nil, by simp, by simp⟩, rfl⟩
    | some m =>
      obtain ⟨hm, hk⟩ := mem_of_lookup hm
      obtain ⟨_, -, hist⟩ := inv m hm
      exact ⟨m, _, rfl, hk, hist, ht m hm hk⟩
  obtain ⟨m, on, hm, hk, hist, ht⟩ := hbefore
  rw [hm] at hrow
  obtain ⟨hkey, hsame, hist⟩ := startMappingInterval_spec hrow hist ht
  refine inv.setMapping ⟨p, ?_, ?_⟩
  · rw [hkey, hk]
    exact hp
  · rw [hsame, hon]
    exact hist

theorem inv_revokeMapping {k : Key} {now : ℤ} (h : s.revokeMapping k now = .ok s') : Inv s' := by
  obtain ⟨m, hm, h⟩ := bind_eq_ok.mp h
  split_ifs at h
  · obtain ⟨m', hclose, h⟩ := bind_eq_ok.mp h
    obtain rfl := ok.inj h
    obtain ⟨p, hp, hist⟩ := inv m (mem_of_lookup (okOr_eq_ok.mp hm)).1
    obtain ⟨hkey, hist⟩ := closeAuthorizationIntervals_spec hclose hist
    exact inv.setMapping ⟨p, hkey ▸ hp, hist⟩
  · exact ok.inj h ▸ inv

theorem inv_revokeProducer {relay : Bytes} {now : ℤ} (h : s.revokeProducer relay now = .ok s') : Inv s' := by
  obtain ⟨p, hp, h⟩ := bind_eq_ok.mp h
  split_ifs at h
  · obtain ⟨s₁, hclose, h⟩ := bind_eq_ok.mp h
    obtain rfl := ok.inj h
    obtain ⟨rows, hrows, hclose⟩ := bind_eq_ok.mp hclose
    obtain rfl := ok.inj hclose
    intro m' hm'
    obtain ⟨m, hm, hf⟩ := exists_of_mapM hrows m' hm'
    split_ifs at hf with hrelay
    · obtain ⟨_, -, hist⟩ := inv m hm
      obtain ⟨hkey, hist⟩ := closeAuthorizationIntervals_spec hf hist
      refine ⟨{ p with enabled := false }, ?_, ?_⟩
      · rw [hkey, hrelay]
        exact AList.lookup_insert _
      · rw [Bool.and_false]
        exact hist
    · obtain rfl := ok.inj hf
      exact (inv m hm).setProducer hrelay
  · exact ok.inj h ▸ inv

/-- **A call keeps the history** that opens no interval before an earlier one of its mapping ended. -/
theorem inv_step (ht : s.timely relayID c = true) : Inv (s.step relayID c) := by
  unfold step
  cases h : s.perform relayID c with
  | error e => exact inv
  | ok s' =>
    rw [timely, h, show isOk (.ok s') = true from rfl, Bool.not_true, Bool.or_false] at ht
    have ht (m : AllowedMapping) (hm : m ∈ s.mappings) (hopens : opens relayID c m = true) :
        m.timely c.now = true := by
      simpa [hopens] using all_eq_true.mp ht m hm
    unfold perform at h
    split at h
    next publicKey deployment hop =>
      refine inv_authorizeProducer inv h fun m hm hrelay hon => ht m hm ?_
      simp [opens, hop, hrelay, hon]
    next k hop =>
      refine inv_allowMapping inv h fun m hm hk => ht m hm ?_
      simp [opens, hop, hk]
    next => exact inv_revokeMapping inv h
    next => exact inv_revokeProducer inv h

/-- What the intervals of a mapping are to tell. -/
structure Coherent (s : Store) (k : Key) : Prop where
  nonempty : ∀ i ∈ s.intervals k, i.times.Nonempty
  disjoint : (s.intervals k).Pairwise fun i j => Disjoint i.times j.times
  open_le : (s.intervals k).countP (·.endUS.isNone) ≤ 1
  open_iff : (∃ i ∈ s.intervals k, i.endUS = none) ↔ s.enabled k = true

theorem Inv.coherent (k : Key) : Coherent s k := by
  cases hm : s.lookup k with
  | none => constructor <;> simp [intervals, enabled, hm]
  | some m =>
    obtain ⟨hmem, rfl⟩ := mem_of_lookup hm
    obtain ⟨p, hp, hist⟩ := inv m hmem
    have hintervals : s.intervals m.key = m.intervals := by rw [intervals, hm, Option.elim_some]
    have henabled : s.enabled m.key = (m.enabled && p.enabled) := by rw [enabled, hm, hp]; rfl
    constructor
    · rw [hintervals]
      exact hist.times_nonempty
    · rw [hintervals]
      exact hist.ordered.imp disjoint_times
    · rw [hintervals]
      exact countP_open_le hist.ordered
    · rw [hintervals, henabled]
      exact hist.open_iff

omit inv

/-- **Authorization history** is coherent, if no call opens an interval before an earlier one of its
mapping has ended. -/
theorem authorization_coherent (relayID : Bytes → Bytes) (calls : List Call)
    (h : Along (step relayID) (timely relayID) empty calls = true) (k : Key) :
    Coherent (run (step relayID) empty calls) k := by
  have hstep (s : Store) (c : Call) (ht : s.timely relayID c = true) (inv : Inv s) :
      Inv (s.step relayID c) := inv_step inv ht
  exact (along_induction hstep (fun m hm => absurd hm not_mem_nil) h).coherent k

def managed : Key := ⟨[], ascii "d", replicate 64 0x30⟩

/-- Allowed at time 0, revoked at time 10, and allowed again. -/
def allowedAgain (now : ℤ) : List Call :=
  [⟨.authorizeProducer (replicate PublicKeySize 0) (ascii "d"), 0, fun _ _ => none⟩,
    ⟨.allowMapping managed, 0, fun _ _ => some []⟩, ⟨.revokeMapping managed, 10, fun _ _ => none⟩,
    ⟨.allowMapping managed, now, fun _ _ => some []⟩]

theorem step_authorize (ledger : Bytes → Bytes → Option Bytes) :
    empty.step (fun _ => []) ⟨.authorizeProducer (replicate PublicKeySize 0) (ascii "d"), 0, ledger⟩
      = empty.setProducer [] ⟨ascii "d", base64Encode (replicate PublicKeySize 0), true⟩ := by
  have hlabel : mappingLabel 128 (ascii "d") = true := by decide
  simp only [step, perform, authorizeProducer]
  rw [if_neg (by simp [hlabel])]
  rfl

theorem authorization_coherent_allowedAgain :
    Along (step fun _ => []) (timely fun _ => []) empty (allowedAgain 10) = true
      ∧ Coherent (run (step fun _ => []) empty (allowedAgain 10)) managed := by
  have h : Along (step fun _ => []) (timely fun _ => []) empty (allowedAgain 10) = true := by
    rw [allowedAgain, Along, step_authorize]
    rfl
  exact ⟨h, authorization_coherent _ _ h _⟩

/-- The clock is set back: at 5 there are two intervals, at 0 none is opened. -/
theorem stepped_back_incoherent : ¬ Coherent (run (step fun _ => []) empty (allowedAgain 5)) managed
      ∧ ¬ Coherent (run (step fun _ => []) empty (allowedAgain 0)) managed := by
  constructor
  · intro h
    have hdisjoint := h.disjoint
    rw [allowedAgain, run_cons, step_authorize] at hdisjoint
    have htwo := (pairwise_cons.mp hdisjoint).1 ⟨[], 5, none⟩ mem_cons_self
    have hsix := @Set.disjoint_left.mp htwo 6
    simp [Interval.times] at hsix
  · intro h
    have hopen := h.open_iff
    rw [allowedAgain, run_cons, step_authorize] at hopen
    obtain ⟨i, hi, hnone⟩ := hopen.mpr rfl
    rw [mem_singleton.mp hi] at hnone
    cases hnone

end Store

end Karst.Relay.Authorizations
