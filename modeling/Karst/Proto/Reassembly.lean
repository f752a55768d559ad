import Karst.Foundations.Bits
import Karst.Foundations.SlotTable
import Karst.Proto.Fragment

/-!
# The reassembler

`karst-proto/src/reassembly.rs`: a fixed table of slots, each holding one message in flight, keyed
by source and reassembly id.  `push` follows the source check by check; the entry it allocates is
in the table before the fragment itself is looked at.
-/

namespace Karst.Proto

open SlotTable Option Except
open List hiding Vector

/-- Opaque source identity: 16 bytes of address and 2 of port. -/
abbrev SourceKey := Vector UInt8 18

/-- Largest message the reassembler will ever hold. -/
def MAX_MESSAGE : ℕ := MAX_FRAGMENTS * FRAGMENT_PAYLOAD_MAX

structure Config where
  maxEntries : ℕ
  maxPerSource : ℕ
  timeoutMs : ℕ
  /-- Occupied slots above which unvalidated sources get a cookie instead of state. -/
  loadThreshold : ℕ

namespace Config

def default : Config := ⟨256, 4, 3000, 170⟩

/-- Sizing for one authenticated peer's own reassembler. -/
def perSession : Config := ⟨8, 4, 3000, 8⟩

end Config

inductive Reject where
  | cookieRequired
  | capacityExhausted
  | sourceBudgetExhausted
  | duplicate
  | inconsistent
  deriving DecidableEq

inductive Accept where
  | buffered
  | complete (msg : Bytes)
  | rejected (reason : Reject)
  deriving DecidableEq

structure Entry where
  source : SourceKey
  reassemblyId : UInt32
  count : UInt8
  /-- Bit `i` set means index `i` held. -/
  received : BitVec 8
  lens : Vector UInt16 MAX_FRAGMENTS
  buf : Buffer MAX_MESSAGE
  expiresAtMs : ℕ

namespace Entry

def key (e : Entry) : SourceKey × UInt32 := (e.source, e.reassemblyId)

def complete (e : Entry) : Bool :=
  e.received == if 8 ≤ e.count then 255#8 else (1#8 <<< e.count.toNat) - 1#8

def record (e : Entry) (i : ℕ) (payload : Bytes) (buf : Buffer MAX_MESSAGE) : Entry :=
  { e with
    buf
    lens := e.lens.setIfInBounds i (if payload.length < 2 ^ 16 then UInt16.ofNat payload.length else 0)
    received := e.received ||| (1#8 <<< i) }

def store (e : Entry) (hdr : FragmentHeader) (payload : Bytes) : Except Reject Entry :=
  if e.count ≠ hdr.count then .error .inconsistent
  else if e.received &&& (1#8 <<< hdr.idx.toNat) != 0 then .error .duplicate
  -- only the last fragment may be short
  else if hdr.idx + 1 < hdr.count ∧ payload.length ≠ FRAGMENT_PAYLOAD_MAX then .error .inconsistent
  else match e.buf.write (hdr.idx.toNat * FRAGMENT_PAYLOAD_MAX) payload with
    | none => .error .inconsistent
    | some buf => .ok (e.record hdr.idx.toNat payload buf)

/-- The copy-out loop: fragment after fragment to the end of what is already in the scratch buffer.
The total is `none` if a range leaves its buffer. -/
def copyOut (e : Entry) : List ℕ → Buffer MAX_MESSAGE → ℕ → Buffer MAX_MESSAGE × Option ℕ
  | [], scratch, total => (scratch, some total)
  | i :: is, scratch, total =>
    let len := (e.lens[i]?.getD 0).toNat
    match slice e.buf.bytes (i * FRAGMENT_PAYLOAD_MAX) len with
    | none => (scratch, none)
    | some src =>
      match scratch.write total src with
      | none => (scratch, none)
      | some scratch => copyOut e is scratch (total + len)

end Entry

structure Reassembler where
  slots : List (Option Entry)
  cfg : Config
  /-- Scratch used to return a contiguous completed message. -/
  scratch : Buffer MAX_MESSAGE

structure Push where
  source : SourceKey
  addrValidated : Bool
  hdr : FragmentHeader
  payload : Bytes
  nowMs : ℕ

def Push.key (p : Push) : SourceKey × UInt32 := (p.source, p.hdr.reassemblyId)

def saturatingAdd (a b : ℕ) : ℕ := min (a + b) (2 ^ 64 - 1)

namespace Reassembler

def new (cfg : Config) : Reassembler := ⟨List.replicate cfg.maxEntries none, cfg, Buffer.zero _⟩

def occupied (r : Reassembler) : ℕ := r.slots.countP Option.isSome

def fromSource (r : Reassembler) (source : SourceKey) : ℕ :=
  r.slots.countP fun s => s.any fun e => e.source == source

def expire (r : Reassembler) (nowMs : ℕ) : Reassembler :=
  { r with slots := evict (fun e => decide (e.expiresAtMs ≤ nowMs)) r.slots }

/-- A single-fragment message is copied straight out and occupies no slot. -/
def completeUnfragmented (r : Reassembler) (payload : Bytes) : Reassembler × Accept :=
  if TRANSPORT_PAYLOAD_MAX < payload.length then (r, .rejected .inconsistent)
  else match r.scratch.write 0 payload with
    | none => (r, .rejected .inconsistent)
    | some scratch =>
      match slice scratch.bytes 0 payload.length with
      | some msg => ({ r with scratch }, .complete msg)
      | none => ({ r with scratch }, .rejected .inconsistent)

def freshEntry (r : Reassembler) (p : Push) : Entry where
  source := p.source
  reassemblyId := p.hdr.reassemblyId
  count := p.hdr.count
  received := 0
  lens := Vector.replicate MAX_FRAGMENTS 0
  buf := Buffer.zero _
  expiresAtMs := saturatingAdd p.nowMs r.cfg.timeoutMs

/-- Allocate a slot.  The load threshold precedes every allocation. -/
def allocate (r : Reassembler) (p : Push) : Except Reject (Reassembler × ℕ) :=
  if p.addrValidated = false ∧ r.cfg.loadThreshold ≤ r.occupied then .error .cookieRequired
  else if r.cfg.maxPerSource ≤ r.fromSource p.source then .error .sourceBudgetExhausted
  else match free r.slots with
    | some i => .ok ({ r with slots := r.slots.set i (some (r.freshEntry p)) }, i)
    | none => .error .capacityExhausted

/-- The slot in flight for this source and id, or a new one. -/
def locate (r : Reassembler) (p : Push) : Except Reject (Reassembler × ℕ) :=
  match position Entry.key p.key r.slots with
  | some i => .ok (r, i)
  | none => r.allocate p

/-- A complete entry: copy out contiguously, then release the slot. -/
def finish (r : Reassembler) (i : ℕ) (e : Entry) : Reassembler × Accept :=
  match e.copyOut (List.range e.count.toNat) r.scratch 0 with
  | (scratch, none) => ({ r with scratch }, .rejected .inconsistent)
  | (scratch, some total) =>
    let r := { r with scratch, slots := r.slots.set i none }
    match slice scratch.bytes 0 total with
    | some msg => (r, .complete msg)
    | none => (r, .rejected .inconsistent)

def fill (r : Reassembler) (i : ℕ) (p : Push) : Reassembler × Accept :=
  match r.slots[i]?.join with
  | none => (r, .rejected .capacityExhausted)
  | some e =>
    match e.store p.hdr p.payload with
    | .error reason => (r, .rejected reason)
    | .ok e =>
      let r := { r with slots := r.slots.set i (some e) }
      if e.complete then r.finish i e else (r, .buffered)

def push (r : Reassembler) (p : Push) : Reassembler × Accept :=
  if MAX_FRAGMENTS < p.hdr.count.toNat ∨ p.hdr.count ≤ p.hdr.idx then (r, .rejected .inconsistent)
  -- before `expire`: an unfragmented message neither reads nor writes a slot
  else if p.hdr.count = 1 then r.completeUnfragmented p.payload
  else
    let r := r.expire p.nowMs
    if FRAGMENT_PAYLOAD_MAX < p.payload.length then (r, .rejected .inconsistent)
    else match r.locate p with
      | .error reason => (r, .rejected reason)
      | .ok (r, i) => r.fill i p

def run (r : Reassembler) (ps : List Push) : Reassembler := ps.foldl (fun r p => (r.push p).1) r

def outcomes : Reassembler → List Push → List (Push × Accept)
  | _, [] => []
  | r, p :: ps => (p, (r.push p).2) :: outcomes (r.push p).1 ps

def inFlight (r : Reassembler) (k : SourceKey × UInt32) : Option Entry := entry Entry.key k r.slots

/-! ### The table as a map -/

variable {r : Reassembler} {p : Push}

variable {e : Entry}

theorem Entry.store_key {e' : Entry} {hdr : FragmentHeader} {payload : Bytes}
    (h : e.store hdr payload = .ok e') : e'.key = e.key := by
  unfold Entry.store at h
  split at h
  · simp at h
  · split at h
    · simp at h
    · split at h
      · simp at h
      · split at h
        · simp at h
        · rw [← ok.inj h]
          rfl

variable {i : ℕ} {k : SourceKey × UInt32}

theorem finish_frame (hi : r.slots[i]? = some (some e)) (hk : e.key = k) :
    Frame Entry.key k r.slots (r.finish i e).1.slots := by
  unfold finish
  split
  · exact Frame.refl _ _ _
  · split <;> exact frame_release hi hk

theorem fill_frame (hi : r.slots[i]? = some (some e)) (hk : e.key = p.key) :
    Frame Entry.key p.key r.slots (r.fill i p).1.slots := by
  have hlt : i < r.slots.length := (List.getElem?_eq_some_iff.mp hi).1
  unfold fill
  rw [hi, join_some]
  dsimp only
  cases hs : e.store p.hdr p.payload with
  | error reason => exact Frame.refl _ _ _
  | ok e' =>
    have hk' : e'.key = p.key := (Entry.store_key hs).trans hk
    have hupd := frame_update hi hk hk'
    dsimp only
    split
    · refine hupd.trans (finish_frame (r := { r with slots := r.slots.set i (some e') }) ?_ hk')
      rw [getElem?_store hlt, if_pos rfl]
    · exact hupd

variable {r' : Reassembler}

theorem locate_cases (h : r.locate p = .ok (r', i)) :
    (r' = r ∧ ∃ e, r.slots[i]? = some (some e) ∧ e.key = p.key)
      ∨ (position Entry.key p.key r.slots = none ∧ free r.slots = some i
        ∧ (p.addrValidated = false → r.occupied < r.cfg.loadThreshold)
        ∧ r.fromSource p.source < r.cfg.maxPerSource
        ∧ r' = { r with slots := r.slots.set i (some (r.freshEntry p)) }) := by
  unfold locate at h
  cases hp : position Entry.key p.key r.slots with
  | some j =>
    left
    simp only [hp, ok.injEq, Prod.mk.injEq] at h
    rw [← h.1, ← h.2]
    exact ⟨rfl, position_spec hp⟩
  | none =>
    right
    simp only [hp, allocate] at h
    split at h
    · simp at h
    · rename_i hload
      split at h
      · simp at h
      · cases hf : free r.slots with
        | none => simp [hf] at h
        | some j =>
          simp only [hf, ok.injEq, Prod.mk.injEq] at h
          rw [← h.1, ← h.2]
          refine ⟨rfl, rfl, ?_, by omega, rfl⟩
          intro hv
          exact Nat.lt_of_not_le fun hle => hload ⟨hv, hle⟩

theorem locate_spec (h : r.locate p = .ok (r', i)) :
    Frame Entry.key p.key r.slots r'.slots ∧ r'.cfg = r.cfg ∧ r'.scratch = r.scratch
      ∧ ∃ e, r'.slots[i]? = some (some e) ∧ e.key = p.key ∧ ((r.slots[i]? = some (some e) ∧ r' = r)
          ∨ (position Entry.key p.key r.slots = none ∧ e = r.freshEntry p)) := by
  rcases locate_cases h with ⟨rfl, e, he, hk⟩ | ⟨hp, hf, -, -, rfl⟩
  · exact ⟨Frame.refl _ _ _, rfl, rfl, e, he, hk, .inl ⟨he, rfl⟩⟩
  · have hfree := free_spec hf
    have hlt : i < r.slots.length := (List.getElem?_eq_some_iff.mp hfree).1
    refine ⟨frame_insert hfree hp rfl, rfl, rfl, r.freshEntry p, ?_, rfl, .inr ⟨hp, rfl⟩⟩
    rw [getElem?_store hlt, if_pos rfl]

theorem completeUnfragmented_same {payload : Bytes} :
    (r.completeUnfragmented payload).1.slots = r.slots
      ∧ (r.completeUnfragmented payload).1.cfg = r.cfg := by
  unfold completeUnfragmented
  split
  · exact ⟨rfl, rfl⟩
  · split
    · exact ⟨rfl, rfl⟩
    · split <;> exact ⟨rfl, rfl⟩

theorem completeUnfragmented_eq (payload : Bytes) : (r.completeUnfragmented payload).2
      = if TRANSPORT_PAYLOAD_MAX < payload.length then .rejected .inconsistent
        else .complete payload := by
  unfold completeUnfragmented
  split
  · rfl
  · rename_i hlen
    have hmax : payload.length ≤ MAX_MESSAGE := (Nat.not_lt.mp hlen).trans (by decide)
    obtain ⟨scratch, hwrite⟩ := @Buffer.write_isSome _ r.scratch 0 payload (by omega)
    obtain ⟨hfits, hbytes⟩ := Buffer.write_spec hwrite
    have htake := take_overwrite hfits
    rw [Nat.zero_add, take_zero, nil_append] at htake
    have hslice : slice scratch.bytes 0 payload.length = some payload := by
      rw [slice, Nat.zero_add, if_pos (hmax.trans_eq scratch.size.symm), drop_zero, hbytes, htake]
    simp only [hwrite, hslice]

/-- A fragment of a fragmented message, within the limits of the header and of the payload. -/
structure InRange (p : Push) : Prop where
  multiple : 1 < p.hdr.count.toNat
  count_le : p.hdr.count.toNat ≤ MAX_FRAGMENTS
  idx_lt : p.hdr.idx < p.hdr.count
  fits : p.payload.length ≤ FRAGMENT_PAYLOAD_MAX

/-- **What a push does.**  It refuses the header, copies a lone fragment out, refuses after the
sweep, or works on the slot `locate` finds. -/
theorem push_cases (r : Reassembler) (p : Push) :
    ((MAX_FRAGMENTS < p.hdr.count.toNat ∨ p.hdr.count ≤ p.hdr.idx) ∧ r.push p = (r, .rejected .inconsistent))
      ∨ (p.hdr.count = 1 ∧ p.hdr.idx < p.hdr.count ∧ r.push p = r.completeUnfragmented p.payload)
      ∨ (∃ reason, r.push p = (r.expire p.nowMs, .rejected reason))
      ∨ (InRange p ∧ ∃ r' i, (r.expire p.nowMs).locate p = .ok (r', i) ∧ r.push p = r'.fill i p) := by
  by_cases hguard : MAX_FRAGMENTS < p.hdr.count.toNat ∨ p.hdr.count ≤ p.hdr.idx
  · exact .inl ⟨hguard, by rw [push, if_pos hguard]⟩
  have hidx : p.hdr.idx < p.hdr.count := UInt8.not_le.mp (not_or.mp hguard).2
  by_cases hone : p.hdr.count = 1
  · exact .inr (.inl ⟨hone, hidx, by rw [push, if_neg hguard, if_pos hone]⟩)
  by_cases hlen : FRAGMENT_PAYLOAD_MAX < p.payload.length
  · refine .inr (.inr (.inl ⟨.inconsistent, ?_⟩))
    simp only [push, if_neg hguard, if_neg hone, if_pos hlen]
  right
  right
  cases hl : (r.expire p.nowMs).locate p with
  | error reason =>
    left
    refine ⟨reason, ?_⟩
    simp only [push, if_neg hguard, if_neg hone, if_neg hlen, hl]
  | ok loc =>
    right
    have hne : p.hdr.count.toNat ≠ 1 := fun h => hone (UInt8.toNat_inj.mp h)
    have hpos : p.hdr.idx.toNat < p.hdr.count.toNat := UInt8.lt_iff_toNat_lt.mp hidx
    refine ⟨⟨by omega, by omega, hidx, by omega⟩, loc.1, loc.2, rfl, ?_⟩
    simp only [push, if_neg hguard, if_neg hone, if_neg hlen, hl]

/-- **A push touches one key.**  Up to the sweep of expired entries. -/
theorem push_frame (r : Reassembler) (p : Push) : Frame Entry.key p.key r.slots (r.push p).1.slots
      ∨ Frame Entry.key p.key (r.expire p.nowMs).slots (r.push p).1.slots := by
  rcases push_cases r p with ⟨-, h⟩ | ⟨-, -, h⟩ | ⟨reason, h⟩ | ⟨-, r', i, hl, h⟩
  · left
    rw [h]
    exact Frame.refl _ _ _
  · left
    rw [h, completeUnfragmented_same.1]
    exact Frame.refl _ _ _
  · right
    rw [h]
    exact Frame.refl _ _ _
  · right
    obtain ⟨hframe, -, -, e, hi, hk, -⟩ := locate_spec hl
    rw [h]
    exact hframe.trans (fill_frame hi hk)

variable (hd : Distinct Entry.key r.slots)
include hd

theorem push_distinct (p : Push) : Distinct Entry.key (r.push p).1.slots := by
  rcases push_frame r p with h | h
  · exact h.distinct hd
  · exact h.distinct hd.evict

/-- **No two slots ever hold the same key.** -/
theorem run_distinct (ps : List Push) : Distinct Entry.key (r.run ps).slots := by
  induction ps generalizing r with
  | nil => exact hd
  | cons p ps ih => exact ih (push_distinct hd p)

omit hd

theorem new_distinct (cfg : Config) : Distinct Entry.key (new cfg).slots := by
  intro i j a b hi
  rw [new, getElem?_replicate] at hi
  split at hi <;> simp at hi

include hd

theorem inFlight_expire (now : ℕ) (k : SourceKey × UInt32) :
    (r.expire now).inFlight k = (r.inFlight k).filter fun e => !decide (e.expiresAtMs ≤ now) :=
  entry_evict hd

theorem push_other_none (hk : p.key ≠ k) (h : r.inFlight k = none) : (r.push p).1.inFlight k = none := by
  rcases push_frame r p with hf | hf
  · exact (hf.entry_other hd k hk).trans h
  · have hsame := hf.entry_other hd.evict k hk
    have hswept := inFlight_expire hd p.nowMs k
    rw [h, filter_none] at hswept
    exact hsame.trans hswept

theorem push_other_some (hk : p.key ≠ k) (h : r.inFlight k = some e) (hfresh : p.nowMs < e.expiresAtMs) :
    (r.push p).1.inFlight k = some e := by
  rcases push_frame r p with hf | hf
  · exact (hf.entry_other hd k hk).trans h
  · have hsame := hf.entry_other hd.evict k hk
    have hswept := inFlight_expire hd p.nowMs k
    rw [h, filter_some, if_pos (by simpa using hfresh)] at hswept
    exact hsame.trans hswept

omit hd

/-! ### The entry a push works on -/

theorem push_located (h1 : 1 < p.hdr.count.toNat) (h4 : p.hdr.count.toNat ≤ MAX_FRAGMENTS)
    (hidx : p.hdr.idx < p.hdr.count) (hlen : p.payload.length ≤ FRAGMENT_PAYLOAD_MAX)
    (hl : (r.expire p.nowMs).locate p = .ok (r', i)) : r.push p = r'.fill i p := by
  have hguard : ¬ (MAX_FRAGMENTS < p.hdr.count.toNat ∨ p.hdr.count ≤ p.hdr.idx) := by
    rintro (h | h)
    · omega
    · exact absurd hidx (UInt8.not_lt.mpr h)
  have hone : p.hdr.count ≠ 1 := by
    intro h
    rw [h] at h1
    exact absurd h1 (by decide)
  have hsmall : ¬ FRAGMENT_PAYLOAD_MAX < p.payload.length := by omega
  simp only [push, if_neg hguard, if_neg hone, if_neg hsmall, hl]

theorem locate_existing (hd : Distinct Entry.key r.slots) (h : r.inFlight p.key = some e) :
    ∃ i, r.locate p = .ok (r, i) ∧ r.slots[i]? = some (some e) := by
  obtain ⟨hk, i, hi⟩ := (entry_eq_some hd).mp h
  refine ⟨i, ?_, hi⟩
  rw [locate, position_eq_some hd hi hk]

/-- Room for one more entry of a source: its budget and a free slot. -/
def HasRoom (r : Reassembler) (source : SourceKey) : Prop :=
  r.fromSource source < r.cfg.maxPerSource ∧ (free r.slots).isSome

theorem locate_new (hpos : position Entry.key p.key r.slots = none)
    (hload : p.addrValidated = false → r.occupied < r.cfg.loadThreshold)
    (hroom : r.HasRoom p.source) : ∃ r' i, r.locate p = .ok (r', i) ∧ r.slots[i]? = some none
      ∧ r'.slots = r.slots.set i (some (r.freshEntry p)) ∧ r'.slots[i]? = some (some (r.freshEntry p)) := by
  obtain ⟨i, hi⟩ := isSome_iff_exists.mp hroom.2
  have hlt : i < r.slots.length := (List.getElem?_eq_some_iff.mp (free_spec hi)).1
  have hvalidated : ¬ (p.addrValidated = false ∧ r.cfg.loadThreshold ≤ r.occupied) := by
    rintro ⟨hv, hle⟩
    exact Nat.not_lt.mpr hle (hload hv)
  have hloc : r.locate p = .ok ({ r with slots := r.slots.set i (some (r.freshEntry p)) }, i) := by
    simp [locate, hpos, allocate, hvalidated, Nat.not_le.mpr hroom.1, hi]
  refine ⟨_, i, hloc, free_spec hi, rfl, ?_⟩
  rw [getElem?_store hlt, if_pos rfl]

section

variable {i : ℕ} {e e' : Entry}

variable (hi : r.slots[i]? = some (some e))
include hi

theorem fill_error {reason : Reject}
    (hs : e.store p.hdr p.payload = .error reason) : r.fill i p = (r, .rejected reason) := by
  simp only [fill, hi, join_some, hs]

variable (hs : e.store p.hdr p.payload = .ok e')

include hs

theorem fill_buffered (hc : e'.complete = false) :
    r.fill i p = ({ r with slots := r.slots.set i (some e') }, .buffered) := by
  simp [fill, hi, hs, hc]

theorem fill_finish (hc : e'.complete = true) :
    r.fill i p = ({ r with slots := r.slots.set i (some e') } : Reassembler).finish i e' := by
  simp [fill, hi, hs, hc]

theorem fill_complete (hc : e'.complete = true) {scratch : Buffer MAX_MESSAGE} {total : ℕ} {msg : Bytes}
    (hcopy : e'.copyOut (range e'.count.toNat) r.scratch 0 = (scratch, some total))
    (hmsg : slice scratch.bytes 0 total = some msg) : (r.fill i p).2 = .complete msg := by
  rw [fill_finish hi hs hc]
  simp only [finish, hcopy, hmsg]

omit hi hs

theorem inFlight_stored (hd : Distinct Entry.key r.slots) (hi : r.slots[i]? = some (some e))
    (hs : e.store p.hdr p.payload = .ok e') :
    ({ r with slots := r.slots.set i (some e') } : Reassembler).inFlight e.key = some e' := by
  have hlt : i < r.slots.length := (List.getElem?_eq_some_iff.mp hi).1
  have hk := Entry.store_key hs
  have hself := entry_store_self (a := e') hd hlt fun j c hj hc => hd j _ c _ hj hi (hc.trans hk)
  rwa [hk] at hself

end

/-! ### Limits never change -/

variable (r : Reassembler)

theorem finish_cfg (i : ℕ) (e : Entry) : (r.finish i e).1.cfg = r.cfg := by
  unfold finish
  split
  · rfl
  · split <;> rfl

theorem fill_cfg (i : ℕ) (p : Push) : (r.fill i p).1.cfg = r.cfg := by
  unfold fill
  split
  · rfl
  · split
    · rfl
    · split
      · exact finish_cfg _ _ _
      · rfl

theorem push_cfg (p : Push) : (r.push p).1.cfg = r.cfg := by
  rcases push_cases r p with ⟨-, h⟩ | ⟨-, -, h⟩ | ⟨reason, h⟩ | ⟨-, r', i, hl, h⟩
  · rw [h]
  · rw [h, completeUnfragmented_same.2]
  · rw [h]
    rfl
  · rw [h, fill_cfg]
    exact (locate_spec hl).2.1

variable (ps : List Push)

theorem run_cfg : (r.run ps).cfg = r.cfg := by
  induction ps generalizing r with
  | nil => rfl
  | cons p ps ih => exact (ih _).trans (push_cfg r p)

theorem outcomes_append (ps' : List Push) :
    r.outcomes (ps ++ ps') = r.outcomes ps ++ (r.run ps).outcomes ps' := by
  induction ps generalizing r with
  | nil => rfl
  | cons p ps ih => exact congrArg _ (ih _)

theorem mem_outcomes {r : Reassembler} {ps : List Push} {o : Push × Accept}
    (h : o ∈ r.outcomes ps) : o.1 ∈ ps := by
  induction ps generalizing r with
  | nil => simp [outcomes] at h
  | cons p ps ih =>
    rcases mem_cons.mp h with rfl | h
    · simp
    · exact mem_cons_of_mem p (ih h)

theorem exists_outcome {r : Reassembler} {ps : List Push} (h : p ∈ ps) : ∃ o ∈ r.outcomes ps, o.1 = p := by
  induction ps generalizing r with
  | nil => simp at h
  | cons q ps ih =>
    rcases mem_cons.mp h with rfl | h
    · exact ⟨_, mem_cons_self, rfl⟩
    · obtain ⟨o, ho, rfl⟩ := ih (r := (r.push q).1) h
      exact ⟨o, mem_cons_of_mem _ ho, rfl⟩

theorem run_append (ps' : List Push) : r.run (ps ++ ps') = (r.run ps).run ps' := by
  simp [run]

end Reassembler

end Karst.Proto
