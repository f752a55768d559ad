import Karst.Disco.Messages
import Karst.Foundations.Collections
import Karst.Foundations.Runs

/-!
# Paths to a peer

Probe bookkeeping and path selection (`karst-disco/src/path.rs`).  A `PathSet` holds the paths to one
peer, the probes that await an answer, the transaction ids it has answered, the MTU search and the
path in use.  Time is a millisecond stamp of the caller's; a hash map is iterated in an order that the
caller of the model supplies.
-/

namespace Karst.Disco

open List hiding Vector

/-! ### Constants -/

/-- Most candidate paths remembered for one peer; a relay comes on top. -/
def MAX_PATHS_PER_PEER : ℕ := 64
def MTU_LOSS_THRESHOLD : ℕ := 3
def MTU_RECHECK_MS : ℕ := 300000
def TX_TIMEOUT_MS : ℕ := 5000
def MAX_OUTSTANDING : ℕ := 16
def ANSWERED_WINDOW : ℕ := 64
def PATH_STALE_MS : ℕ := 15000
def HYSTERESIS_MS : ℕ := 20
def HYSTERESIS_PERCENT : ℕ := 20
def HYSTERESIS_SAMPLES : ℕ := 3

def U64_MAX : ℕ := 2 ^ 64 - 1
def U32_MAX : ℕ := 2 ^ 32 - 1

/-! ### A path -/

inductive PathKind where
  | relay
  | directV4
  | directV6
  deriving DecidableEq

namespace PathKind

def directFor : SocketAddr → PathKind
  | .v4 _ _ => .directV4
  | .v6 _ _ _ _ => .directV6

def isDirect : PathKind → Bool
  | .relay => false
  | .directV4 => true
  | .directV6 => true

def group (k : PathKind) : ℕ := if k.isDirect then 0 else 1

theorem directFor_ne_relay (addr : SocketAddr) : directFor addr ≠ .relay := by
  cases addr <;> simp [directFor]

end PathKind

inductive Mtu where
  | unconfirmed
  | confirmed (size atMs : ℕ)
  deriving DecidableEq

/-- A path confirmed not to carry a full-size datagram. -/
def Mtu.isConfirmedBlackHole : Mtu → Bool
  | .unconfirmed => false
  | .confirmed size _ => decide (size < MTU_CEILING)

structure Path where
  addr : SocketAddr
  kind : PathKind
  latencyMs : Option ℕ
  lastPongMs : Option ℕ
  mtu : Mtu
  deriving DecidableEq

def Path.record (p : Path) : SocketAddr × PathKind × Option ℕ := (p.addr, p.kind, p.lastPongMs)

def Path.isUsable (p : Path) (nowMs : ℕ) : Bool :=
  match p.lastPongMs with
  | some t => decide (nowMs - t ≤ PATH_STALE_MS)
  | none => false

def margin (latencyMs : ℕ) : ℕ :=
  max HYSTERESIS_MS (min (latencyMs * HYSTERESIS_PERCENT) U64_MAX / 100)

/-- The preference group: direct paths, the relay, confirmed black holes. -/
def Path.group (p : Path) : ℕ :=
  if p.kind.isDirect && p.mtu.isConfirmedBlackHole then 2 else p.kind.group

/-- Group, then latency with a credit of one margin for IPv6. -/
def Path.score (p : Path) : ℕ ×ₗ ℕ :=
  let latency := p.latencyMs.getD U64_MAX
  let effective := if p.kind = .directV6 then latency - margin latency else latency
  toLex (p.group, effective)

def Path.beats (challenger incumbent : Path) : Bool :=
  let c := ofLex challenger.score
  let i := ofLex incumbent.score
  if c.1 ≠ i.1 then decide (c.1 < i.1)
  else if challenger.latencyMs.isNone || incumbent.latencyMs.isNone then false
  else decide (min (c.2 + margin i.2) U64_MAX ≤ i.2)

/-! ### The MTU search -/

structure Bisect where
  /-- Largest size confirmed delivered. -/
  low : ℕ
  /-- Smallest size confirmed lost, or one above the ceiling. -/
  high : ℕ
  losses : ℕ

namespace Bisect

def start : Bisect := ⟨MTU_FLOOR, MTU_CEILING + 1, 0⟩

def nextProbe (b : Bisect) : Option ℕ :=
  if b.high ≤ b.low + 1 then none
  else if b.high = MTU_CEILING + 1 then some MTU_CEILING
  else some (b.low + (b.high - b.low) / 2)

def onSuccess (b : Bisect) (size : ℕ) : Bisect :=
  { b with low := if b.low < size then size else b.low, losses := 0 }

def onTimeout (b : Bisect) (size : ℕ) : Bisect × Bool :=
  let losses := min (b.losses + 1) U32_MAX
  if losses < MTU_LOSS_THRESHOLD then ({ b with losses }, false)
  else ({ b with high := if size < b.high then size else b.high, losses := 0 }, true)

def resolved (b : Bisect) : Option ℕ := if b.high ≤ b.low + 1 then some b.low else none

end Bisect

/-! ### The set -/

structure Outstanding where
  addr : SocketAddr
  sentMs : ℕ

structure MtuOutstanding where
  addr : SocketAddr
  size : ℕ
  sentMs : ℕ

/-- The order in which the map of probes is walked. -/
abbrev ProbeOrder := Arrangement MtuOutstanding

inductive PongOutcome where
  | confirmed (addr : SocketAddr) (rttMs : ℕ)
  | unmatched

inductive ProbeError where
  | tooManyOutstanding

inductive Admission where
  | known
  | added (evicted : Option SocketAddr)
  | full

inductive Room where
  | available (evicted : Option SocketAddr)
  | full

inductive Selection where
  | none
  | lost
  | chose (addr : SocketAddr)
  | kept (addr : SocketAddr)
  | switched (addr : SocketAddr)

structure PathSet where
  paths : List Path
  outstanding : AList fun _ : TxId => Outstanding
  /-- Transaction ids already answered, the oldest first. -/
  answered : List TxId
  mtuSearch : AList fun _ : SocketAddr => Bisect
  mtuOutstanding : AList fun _ : TxId => MtuOutstanding
  chosen : Option SocketAddr
  /-- Consecutive measurements in which a challenger has won by the margin. -/
  challenger : Option (SocketAddr × ℕ)

namespace PathSet

def new : PathSet := ⟨[], ∅, [], ∅, ∅, none, none⟩

def knows (s : PathSet) (addr : SocketAddr) : Bool := s.paths.any fun p => p.addr == addr

/-- Never answered, then the stalest, then the oldest. -/
def staleness (e : Path × ℕ) : WithBot ℕ ×ₗ ℕ := toLex (e.1.lastPongMs, e.2)

/-- The path to drop for a new one, with its index: never the chosen one. -/
def victim (s : PathSet) : Option (Path × ℕ) :=
  (s.paths.zipIdx.filter fun e => some e.1.addr != s.chosen).argmin staleness

def makeRoom (s : PathSet) : PathSet × Room :=
  if s.paths.length < MAX_PATHS_PER_PEER then (s, .available none) else
  match s.victim with
  | some (p, i) => ({ s with paths := s.paths.eraseIdx i }, .available (some p.addr))
  | none => (s, .full)

def admitPath (s : PathSet) (p : Path) : PathSet × Room :=
  match s.makeRoom with
  | (s, .available evicted) => ({ s with paths := s.paths ++ [p] }, .available evicted)
  | (s, .full) => (s, .full)

def addCandidate (s : PathSet) (addr : SocketAddr) (kind : PathKind) : PathSet × Admission :=
  if s.knows addr then (s, .known) else
  match s.admitPath ⟨addr, kind, none, none, .unconfirmed⟩ with
  | (s, .available evicted) => (s, .added evicted)
  | (s, .full) => (s, .full)

/-- Copy the answer of a search that has converged to its path. -/
def syncMtuResult (s : PathSet) (addr : SocketAddr) (nowMs : ℕ) : PathSet :=
  match (s.mtuSearch.lookup addr).bind Bisect.resolved with
  | none => s
  | some size =>
    { s with
      mtuSearch := s.mtuSearch.erase addr
      paths := updateFirst (fun p => p.addr == addr)
        (fun p => { p with mtu := .confirmed size nowMs }) s.paths }

/-- One turn of the loop over the MTU probes that timed out. -/
def onMtuTimeout (nowMs : ℕ) (s : PathSet) (o : MtuOutstanding) : PathSet :=
  match s.mtuSearch.lookup o.addr with
  | none => s
  | some search =>
    let s := { s with mtuSearch := s.mtuSearch.insert o.addr (search.onTimeout o.size).1 }
    if (search.onTimeout o.size).2 then s.syncMtuResult o.addr nowMs else s

def expire (s : PathSet) (order : ProbeOrder) (nowMs : ℕ) : PathSet :=
  let timedOut := (order.arrange (s.mtuOutstanding.entries.map Sigma.snd)).filter fun o =>
    !decide (nowMs - o.sentMs ≤ TX_TIMEOUT_MS)
  timedOut.foldl (onMtuTimeout nowMs) { s with
      outstanding := retain (fun o => decide (nowMs - o.sentMs ≤ TX_TIMEOUT_MS)) s.outstanding
      mtuOutstanding :=
        retain (fun o => decide (nowMs - o.sentMs ≤ TX_TIMEOUT_MS)) s.mtuOutstanding }

def onPingSent (s : PathSet) (order : ProbeOrder) (tx : TxId) (addr : SocketAddr)
    (nowMs : ℕ) : PathSet × Except ProbeError Unit :=
  let s := s.expire order nowMs
  if MAX_OUTSTANDING ≤ s.outstanding.entries.length then (s, .error .tooManyOutstanding) else
  ({ s with outstanding := s.outstanding.insert tx ⟨addr, nowMs⟩ }, .ok ())

def onProbeReceived (s : PathSet) (tx : TxId) : PathSet × Bool :=
  if tx ∈ s.answered then (s, false) else
  let kept := if ANSWERED_WINDOW ≤ s.answered.length then s.answered.tail else s.answered
  ({ s with answered := kept ++ [tx] }, true)

def confirmedAt (sent : Outstanding) (nowMs : ℕ) (p : Path) : Path :=
  { p with latencyMs := some (nowMs - sent.sentMs), lastPongMs := some nowMs }

/-- The address of a probe has answered.  A path that was evicted between probe and answer comes
back: something answered, so it works. -/
def confirm (s : PathSet) (sent : Outstanding) (nowMs : ℕ) : PathSet :=
  if s.knows sent.addr then
    { s with
      paths := updateFirst (fun p => p.addr == sent.addr) (confirmedAt sent nowMs) s.paths }
  else
    (s.admitPath ⟨sent.addr, .directFor sent.addr, some (nowMs - sent.sentMs), some nowMs, .unconfirmed⟩).1

def onPong (s : PathSet) (order : ProbeOrder) (tx : TxId) (nowMs : ℕ) :
    PathSet × PongOutcome :=
  let s := s.expire order nowMs
  match s.outstanding.lookup tx with
  | none => (s, .unmatched)
  | some sent =>
    -- removed, not read: a transaction id is accepted once
    ({ s with outstanding := s.outstanding.erase tx }.confirm sent nowMs,
      .confirmed sent.addr (nowMs - sent.sentMs))

def setRelay (s : PathSet) (addr : SocketAddr) (latencyMs nowMs : ℕ) : PathSet :=
  if s.paths.any fun p => p.kind == .relay then
    { s with
      paths := updateFirst (fun p => p.kind == .relay)
        (fun p => { p with addr, latencyMs := some latencyMs, lastPongMs := some nowMs }) s.paths }
  else
    { s with paths := s.paths ++ [⟨addr, .relay, some latencyMs, some nowMs, .unconfirmed⟩] }

def clearRelay (s : PathSet) : PathSet :=
  { s with paths := s.paths.filter fun p => p.kind != .relay }

/-- Whether the path is to be searched, for the first time or again. -/
def mtuDue (s : PathSet) (addr : SocketAddr) (nowMs : ℕ) : Bool :=
  match (s.paths.find? fun p => p.addr == addr).map Path.mtu with
  | none => false
  | some .unconfirmed => true
  | some (.confirmed _ atMs) => decide (MTU_RECHECK_MS ≤ nowMs - atMs)

def ensureMtuSearch (s : PathSet) (addr : SocketAddr) (nowMs : ℕ) : PathSet :=
  if (s.mtuSearch.lookup addr).isSome then s
  else if s.mtuDue addr nowMs then { s with mtuSearch := s.mtuSearch.insert addr .start }
  else s

/-- The size to probe next, if a search is running and no probe is out. -/
def nextMtuProbe (s : PathSet) (addr : SocketAddr) : Option ℕ :=
  if s.mtuOutstanding.entries.any fun e => e.2.addr == addr then none
  else (s.mtuSearch.lookup addr).bind Bisect.nextProbe

def onMtuProbeSent (s : PathSet) (order : ProbeOrder) (tx : TxId)
    (addr : SocketAddr) (size nowMs : ℕ) : PathSet × Except ProbeError Unit :=
  let s := s.expire order nowMs
  if MAX_OUTSTANDING ≤ s.mtuOutstanding.entries.length then (s, .error .tooManyOutstanding) else
  ({ s with mtuOutstanding := s.mtuOutstanding.insert tx ⟨addr, size, nowMs⟩ }, .ok ())

def onMtuProbeAck (s : PathSet) (order : ProbeOrder) (tx : TxId) (nowMs : ℕ) :
    PathSet :=
  let s := s.expire order nowMs
  match s.mtuOutstanding.lookup tx with
  | none => s
  | some o =>
    let s := { s with mtuOutstanding := s.mtuOutstanding.erase tx }
    match s.mtuSearch.lookup o.addr with
    | none => s
    | some search =>
      let s := { s with mtuSearch := s.mtuSearch.insert o.addr (search.onSuccess o.size) }
      s.syncMtuResult o.addr nowMs

def resetMtu (s : PathSet) : PathSet :=
  { s with
    mtuSearch := ∅
    mtuOutstanding := ∅
    paths := s.paths.map fun p => { p with mtu := .unconfirmed } }

def best (s : PathSet) (nowMs : ℕ) : Option Path :=
  (s.paths.filter fun p => p.isUsable nowMs).argmin Path.score

def settle (s : PathSet) (chosen : Option SocketAddr) : PathSet :=
  { s with chosen, challenger := none }

/-- How often in a row the challenger has won, this time included. -/
def streak (s : PathSet) (best : Path) : ℕ :=
  match s.challenger with
  | some (addr, n) => if addr = best.addr then min (n + 1) U32_MAX else 1
  | none => 1

def select (s : PathSet) (nowMs : ℕ) : PathSet × Selection :=
  match s.best nowMs with
  | none => (s.settle none, if s.chosen.isSome then .lost else .none)
  | some best =>
    match s.chosen with
    | none => (s.settle (some best.addr), .chose best.addr)
    | some currentAddr =>
      match s.paths.find? fun p => p.addr == currentAddr && p.isUsable nowMs with
      -- the chosen path went stale: no hysteresis
      | none => (s.settle (some best.addr), .switched best.addr)
      | some current =>
        if best.addr = current.addr then
          (s.settle (some currentAddr), .kept current.addr)
        -- a better group is exempt from hysteresis
        else if best.group < current.group then
          (s.settle (some best.addr), .switched best.addr)
        else if best.beats current = false then
          (s.settle (some currentAddr), .kept current.addr)
        else
          if HYSTERESIS_SAMPLES ≤ s.streak best then
            (s.settle (some best.addr), .switched best.addr)
          else
            ({ s with challenger := some (best.addr, s.streak best) }, .kept current.addr)

/-! ### What the operations leave alone -/

/-- Nothing but the MTU search and what it has found may differ. -/
structure SameButMtu (s s' : PathSet) : Prop where
  records : s'.paths.map Path.record = s.paths.map Path.record
  outstanding : s'.outstanding = s.outstanding
  answered : s'.answered = s.answered
  chosen : s'.chosen = s.chosen
  challenger : s'.challenger = s.challenger

variable (s : PathSet)

theorem SameButMtu.refl : SameButMtu s s := ⟨rfl, rfl, rfl, rfl, rfl⟩

theorem SameButMtu.trans {s s' s'' : PathSet} (h : SameButMtu s s') (h' : SameButMtu s' s'') :
    SameButMtu s s'' :=
  ⟨h'.records.trans h.records, h'.outstanding.trans h.outstanding, h'.answered.trans h.answered,
    h'.chosen.trans h.chosen, h'.challenger.trans h.challenger⟩

theorem sameButMtu_syncMtuResult (addr : SocketAddr) (nowMs : ℕ) :
    SameButMtu s (s.syncMtuResult addr nowMs) := by
  unfold syncMtuResult
  split
  · exact .refl s
  · exact ⟨map_updateFirst fun p => rfl, rfl, rfl, rfl, rfl⟩

theorem sameButMtu_onMtuTimeout (nowMs : ℕ) (s : PathSet) (o : MtuOutstanding) :
    SameButMtu s (s.onMtuTimeout nowMs o) := by
  unfold onMtuTimeout
  split
  · exact .refl s
  · rename_i search hsearch
    have hinsert : SameButMtu s
        { s with mtuSearch := s.mtuSearch.insert o.addr (search.onTimeout o.size).1 } :=
      ⟨rfl, rfl, rfl, rfl, rfl⟩
    split
    · exact hinsert.trans (sameButMtu_syncMtuResult _ _ _)
    · exact hinsert

theorem sameButMtu_foldl (nowMs : ℕ) (timedOut : List MtuOutstanding) (s : PathSet) :
    SameButMtu s (timedOut.foldl (onMtuTimeout nowMs) s) := by
  induction timedOut generalizing s with
  | nil => exact .refl s
  | cons o timedOut ih => exact (sameButMtu_onMtuTimeout nowMs s o).trans (ih _)

section

variable (s : PathSet) (order : ProbeOrder) (nowMs : ℕ)

theorem sameButMtu_expire : SameButMtu { s with
      outstanding := retain (fun o => decide (nowMs - o.sentMs ≤ TX_TIMEOUT_MS)) s.outstanding }
      (s.expire order nowMs) := by
  have hretain : SameButMtu { s with
      outstanding := retain (fun o => decide (nowMs - o.sentMs ≤ TX_TIMEOUT_MS)) s.outstanding }
      { s with
        outstanding := retain (fun o => decide (nowMs - o.sentMs ≤ TX_TIMEOUT_MS)) s.outstanding
        mtuOutstanding :=
          retain (fun o => decide (nowMs - o.sentMs ≤ TX_TIMEOUT_MS)) s.mtuOutstanding } :=
    ⟨rfl, rfl, rfl, rfl, rfl⟩
  exact hretain.trans (sameButMtu_foldl nowMs _ _)

theorem records_expire : (s.expire order nowMs).paths.map Path.record = s.paths.map Path.record :=
  (s.sameButMtu_expire order nowMs).records

theorem lookup_expire (tx : TxId) : (s.expire order nowMs).outstanding.lookup tx
      = (s.outstanding.lookup tx).filter fun o => decide (nowMs - o.sentMs ≤ TX_TIMEOUT_MS) := by
  rw [(s.sameButMtu_expire order nowMs).outstanding, lookup_retain]

theorem lookup_expire_eq_some {tx : TxId} {o : Outstanding} :
    (s.expire order nowMs).outstanding.lookup tx = some o
      ↔ s.outstanding.lookup tx = some o ∧ nowMs - o.sentMs ≤ TX_TIMEOUT_MS := by
  rw [lookup_expire, Option.filter_eq_some_iff, decide_eq_true_iff]

end

/-- **Room.**  A path is added because there is room, or in the place of a path that is not in use,
or it is not added. -/
theorem admitPath_cases (new : Path) : (s.paths.length < MAX_PATHS_PER_PEER
        ∧ s.admitPath new = ({ s with paths := s.paths ++ [new] }, .available none))
      ∨ (∃ l₁ p l₂, MAX_PATHS_PER_PEER ≤ s.paths.length ∧ s.paths = l₁ ++ p :: l₂
        ∧ s.victim.map Prod.fst = some p ∧ some p.addr ≠ s.chosen ∧ s.admitPath new
          = ({ s with paths := l₁ ++ l₂ ++ [new] }, .available (some p.addr)))
      ∨ (MAX_PATHS_PER_PEER ≤ s.paths.length ∧ s.victim = none ∧ s.admitPath new = (s, .full)) := by
  unfold admitPath makeRoom
  by_cases hroom : s.paths.length < MAX_PATHS_PER_PEER
  · rw [if_pos hroom]
    exact .inl ⟨hroom, rfl⟩
  · rw [if_neg hroom]
    cases hvictim : s.victim with
    | none => exact .inr (.inr ⟨Nat.not_lt.mp hroom, rfl, rfl⟩)
    | some e =>
      rcases e with ⟨p, i⟩
      obtain ⟨hmem, hchosen⟩ := mem_filter.mp (argmin_mem hvictim)
      obtain ⟨l₁, l₂, hpaths, herase⟩ := eraseIdx_of_mem_zipIdx hmem
      refine .inr (.inl ⟨l₁, p, l₂, Nat.not_lt.mp hroom, hpaths, rfl, ?_, ?_⟩)
      · simpa using hchosen
      · rw [← herase]

theorem mem_admitPath {s : PathSet} {new p : Path} (hp : p ∈ (s.admitPath new).1.paths) :
    p ∈ s.paths ∨ p = new := by
  rcases s.admitPath_cases new with ⟨-, h⟩ | ⟨l₁, q, l₂, -, hpaths, -, -, h⟩ | ⟨-, -, h⟩
  · rw [h] at hp
    simpa using hp
  · rw [h] at hp
    rw [hpaths]
    rcases mem_append.mp hp with hp | hp
    · rcases mem_append.mp hp with hp | hp
      · exact .inl (mem_append_left _ hp)
      · exact .inl (mem_append_right _ (mem_cons_of_mem q hp))
    · exact .inr (mem_singleton.mp hp)
  · rw [h] at hp
    exact .inl hp

theorem admitPath_eq (new : Path) : ∃ paths, (s.admitPath new).1 = { s with paths } := by
  rcases s.admitPath_cases new with ⟨-, h⟩ | ⟨l₁, q, l₂, -, -, -, -, h⟩ | ⟨-, -, h⟩
  · exact ⟨_, by rw [h]⟩
  · exact ⟨_, by rw [h]⟩
  · exact ⟨s.paths, by rw [h]⟩

theorem addCandidate_fst (addr : SocketAddr) (kind : PathKind) :
    (s.addCandidate addr kind).1 = if s.knows addr then s else
      (s.admitPath ⟨addr, kind, none, none, .unconfirmed⟩).1 := by
  unfold addCandidate
  split
  · rfl
  · rcases hadmits : s.admitPath ⟨addr, kind, none, none, .unconfirmed⟩ with ⟨s', room⟩
    cases room <;> rfl

def dropsFor (s : PathSet) (addr : SocketAddr) : Option Path :=
  if s.knows addr || decide (s.paths.length < MAX_PATHS_PER_PEER) then none
  else s.victim.map Prod.fst

theorem addCandidate_cases (addr : SocketAddr) (kind : PathKind) :
    (s.knows addr = true ∧ s.addCandidate addr kind = (s, .known))
      ∨ (s.knows addr = false ∧ s.dropsFor addr = none
        ∧ s.paths.length < MAX_PATHS_PER_PEER ∧ s.addCandidate addr kind
          = ({ s with paths := s.paths ++ [⟨addr, kind, none, none, .unconfirmed⟩] }, .added none))
      ∨ (∃ l₁ p l₂, s.knows addr = false ∧ s.dropsFor addr = some p ∧ s.paths = l₁ ++ p :: l₂
        ∧ s.addCandidate addr kind = ({ s with
            paths := l₁ ++ l₂ ++ [⟨addr, kind, none, none, .unconfirmed⟩] }, .added (some p.addr)))
      ∨ s.addCandidate addr kind = (s, .full) := by
  unfold addCandidate dropsFor
  cases hknows : s.knows addr with
  | true => exact .inl ⟨rfl, rfl⟩
  | false =>
    rcases s.admitPath_cases ⟨addr, kind, none, none, .unconfirmed⟩ with
      ⟨hroom, h⟩ | ⟨l₁, p, l₂, hfull, hpaths, hvictim, -, h⟩ | ⟨-, -, h⟩
    · exact .inr (.inl ⟨rfl, by simp [hroom], hroom, by rw [h]; rfl⟩)
    · refine .inr (.inr (.inl ⟨l₁, p, l₂, rfl, ?_, hpaths, by rw [h]; rfl⟩))
      simp [Nat.not_lt.mpr hfull, hvictim]
    · exact .inr (.inr (.inr (by rw [h]; rfl)))

theorem sameButMtu_onMtuProbeAck (order : ProbeOrder) (tx : TxId)
    (nowMs : ℕ) : SameButMtu (s.expire order nowMs) (s.onMtuProbeAck order tx nowMs) := by
  unfold onMtuProbeAck
  dsimp only
  split
  · exact .refl _
  · split
    · exact ⟨rfl, rfl, rfl, rfl, rfl⟩
    · refine SameButMtu.trans ?_ (sameButMtu_syncMtuResult _ _ nowMs)
      exact ⟨rfl, rfl, rfl, rfl, rfl⟩

theorem sameButMtu_ensureMtuSearch (addr : SocketAddr) (nowMs : ℕ) :
    SameButMtu s (s.ensureMtuSearch addr nowMs) := by
  unfold ensureMtuSearch
  split
  · exact .refl s
  · split <;> exact ⟨rfl, rfl, rfl, rfl, rfl⟩

theorem sameButMtu_resetMtu : SameButMtu s s.resetMtu := by
  refine ⟨?_, rfl, rfl, rfl, rfl⟩
  show (s.paths.map fun p => { p with mtu := Mtu.unconfirmed }).map Path.record = _
  rw [map_map]
  rfl

theorem sameButMtu_onMtuProbeSent (order : ProbeOrder) (tx : TxId)
    (addr : SocketAddr) (size nowMs : ℕ) :
    SameButMtu (s.expire order nowMs) (s.onMtuProbeSent order tx addr size nowMs).1 := by
  unfold onMtuProbeSent
  dsimp only
  split <;> exact ⟨rfl, rfl, rfl, rfl, rfl⟩

theorem select_eq (nowMs : ℕ) : ∃ chosen challenger, (s.select nowMs).1 = { s with chosen, challenger } := by
  unfold select
  repeat' split
  all_goals exact ⟨_, _, rfl⟩

theorem onPingSent_cases (order : ProbeOrder) (tx : TxId) (addr : SocketAddr) (nowMs : ℕ) :
    s.onPingSent order tx addr nowMs = (s.expire order nowMs, .error .tooManyOutstanding)
      ∨ s.onPingSent order tx addr nowMs = ({ s.expire order nowMs with
        outstanding := (s.expire order nowMs).outstanding.insert tx ⟨addr, nowMs⟩ }, .ok ()) := by
  unfold onPingSent
  dsimp only
  split
  · exact .inl rfl
  · exact .inr rfl

section

variable {s : PathSet} {order : ProbeOrder} {tx : TxId} {nowMs : ℕ} {sent : Outstanding}

theorem onPong_of_none (h : (s.expire order nowMs).outstanding.lookup tx = none) :
    s.onPong order tx nowMs = (s.expire order nowMs, .unmatched) := by
  unfold onPong
  dsimp only
  rw [h]

theorem onPong_of_some (h : (s.expire order nowMs).outstanding.lookup tx = some sent) :
    s.onPong order tx nowMs = (confirm { s.expire order nowMs with
          outstanding := (s.expire order nowMs).outstanding.erase tx } sent nowMs,
        .confirmed sent.addr (nowMs - sent.sentMs)) := by
  unfold onPong
  dsimp only
  rw [h]

theorem confirm_eq (s : PathSet) (sent : Outstanding) (nowMs : ℕ) :
    ∃ paths, s.confirm sent nowMs = { s with paths } := by
  unfold confirm
  split
  · exact ⟨_, rfl⟩
  · exact admitPath_eq s _

end

/-! ### Runs -/

inductive Op where
  | addCandidate (addr : SocketAddr) (kind : PathKind)
  | onPingSent (order : ProbeOrder) (tx : TxId) (addr : SocketAddr) (nowMs : ℕ)
  | onProbeReceived (tx : TxId)
  | onPong (order : ProbeOrder) (tx : TxId) (nowMs : ℕ)
  | setRelay (addr : SocketAddr) (latencyMs nowMs : ℕ)
  | clearRelay
  | ensureMtuSearch (addr : SocketAddr) (nowMs : ℕ)
  | onMtuProbeSent (order : ProbeOrder) (tx : TxId) (addr : SocketAddr)
      (size nowMs : ℕ)
  | onMtuProbeAck (order : ProbeOrder) (tx : TxId) (nowMs : ℕ)
  | resetMtu
  | select (nowMs : ℕ)

def step (s : PathSet) : Op → PathSet
  | .addCandidate addr kind => (s.addCandidate addr kind).1
  | .onPingSent order tx addr nowMs => (s.onPingSent order tx addr nowMs).1
  | .onProbeReceived tx => (s.onProbeReceived tx).1
  | .onPong order tx nowMs => (s.onPong order tx nowMs).1
  | .setRelay addr latencyMs nowMs => s.setRelay addr latencyMs nowMs
  | .clearRelay => s.clearRelay
  | .ensureMtuSearch addr nowMs => s.ensureMtuSearch addr nowMs
  | .onMtuProbeSent order tx addr size nowMs => (s.onMtuProbeSent order tx addr size nowMs).1
  | .onMtuProbeAck order tx nowMs => s.onMtuProbeAck order tx nowMs
  | .resetMtu => s.resetMtu
  | .select nowMs => (s.select nowMs).1

/-! ### What one operation changes -/

/-- The operations that neither answer a probe nor choose a path. -/
def Op.quiet : Op → Bool
  | .onProbeReceived _ | .select _ => false
  | _ => true

def Op.probes : Op → Bool
  | .onPingSent .. | .onPong .. => true
  | _ => false

def Op.changesPaths : Op → Bool
  | .addCandidate .. | .onPong .. | .setRelay .. | .clearRelay => true
  | _ => false

/-- **A quiet operation** changes paths and outstanding probes only, and of the two what its kind
lets it: unless it is about a probe, it adds none. -/
theorem step_quiet (op : Op) (hop : op.quiet = true) :
    ∃ paths outstanding, SameButMtu { s with paths, outstanding } (s.step op) ∧ (op.probes = false →
        ∀ tx o, outstanding.lookup tx = some o → s.outstanding.lookup tx = some o)
      ∧ (op.changesPaths = false → paths = s.paths) := by
  have hexpire (order : ProbeOrder) (t : ℕ) (tx : TxId) (o : Outstanding)
      (ho : (s.expire order t).outstanding.lookup tx = some o) : s.outstanding.lookup tx = some o :=
    ((s.lookup_expire_eq_some order t).mp ho).1
  cases op with
  | onProbeReceived tx => cases hop
  | select t => cases hop
  | addCandidate addr kind =>
    rw [step, addCandidate_fst]
    split
    · exact ⟨s.paths, s.outstanding, .refl s, fun _ _ _ ho => ho, nofun⟩
    · obtain ⟨paths, h⟩ := s.admitPath_eq ⟨addr, kind, none, none, .unconfirmed⟩
      rw [h]
      exact ⟨paths, s.outstanding, .refl _, fun _ _ _ ho => ho, nofun⟩
  | onPingSent order tx addr t =>
    have he := s.sameButMtu_expire order t
    rcases s.onPingSent_cases order tx addr t with h | h
    · rw [step, h]
      exact ⟨s.paths, _, he, nofun, fun _ => rfl⟩
    · rw [step, h]
      exact ⟨s.paths, (s.expire order t).outstanding.insert tx ⟨addr, t⟩,
        ⟨he.records, rfl, he.answered, he.chosen, he.challenger⟩, nofun, fun _ => rfl⟩
  | onPong order tx t =>
    have he := s.sameButMtu_expire order t
    cases hlookup : (s.expire order t).outstanding.lookup tx with
    | none =>
      rw [step, onPong_of_none hlookup]
      exact ⟨s.paths, _, he, nofun, nofun⟩
    | some sent =>
      obtain ⟨paths, h⟩ := confirm_eq { s.expire order t with
        outstanding := (s.expire order t).outstanding.erase tx } sent t
      rw [step, onPong_of_some hlookup, h]
      exact ⟨paths, _, ⟨rfl, rfl, he.answered, he.chosen, he.challenger⟩, nofun, nofun⟩
  | setRelay addr latency t =>
    rw [step, setRelay]
    split <;> exact ⟨_, s.outstanding, .refl _, fun _ _ _ ho => ho, nofun⟩
  | clearRelay => exact ⟨_, s.outstanding, .refl _, fun _ _ _ ho => ho, nofun⟩
  | ensureMtuSearch addr t =>
    exact ⟨s.paths, s.outstanding, s.sameButMtu_ensureMtuSearch addr t, fun _ _ _ ho => ho, fun _ => rfl⟩
  | onMtuProbeSent order tx addr size t =>
    have he := s.sameButMtu_expire order t
    exact ⟨s.paths, _, he.trans (s.sameButMtu_onMtuProbeSent order tx addr size t),
      fun _ tx o ho => hexpire order t tx o (by rwa [he.outstanding]), fun _ => rfl⟩
  | onMtuProbeAck order tx t =>
    have he := s.sameButMtu_expire order t
    exact ⟨s.paths, _, he.trans (s.sameButMtu_onMtuProbeAck order tx t),
      fun _ tx o ho => hexpire order t tx o (by rwa [he.outstanding]), fun _ => rfl⟩
  | resetMtu =>
    exact ⟨s.paths, s.outstanding, s.sameButMtu_resetMtu, fun _ _ _ ho => ho, fun _ => rfl⟩

def run (ops : List Op) : PathSet := Runs.run step new ops

end PathSet

end Karst.Disco
