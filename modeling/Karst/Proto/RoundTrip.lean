import Karst.Crypto.Reference
import Karst.Proto.Contents

/-!
# Fragmentation round trip

What `fragment` cuts, the reassembler puts back, whatever the order, the duplicates and the other
traffic in between.

The invariant of the run is `Holding`: the entry in flight has received exactly the indices pushed
so far, and each of them is where the copy-out loop will look for it.
-/

namespace Karst.Proto

open SlotTable Reassembler Crypto Except
open List hiding Vector

/-! ### An entry that has received some of the fragments -/

/-- The entry holds the fragments `J` of `msg` and nothing else. -/
structure Holding (msg : Bytes) (count deadline : ℕ) (J : Finset ℕ) (e : Entry) : Prop where
  count_eq : e.count = UInt8.ofNat count
  deadline_eq : e.expiresAtMs = deadline
  carries : Carries (payloadAt FRAGMENT_PAYLOAD_MAX msg) J e

variable {msg : Bytes} {count deadline : ℕ} {J : Finset ℕ} {e : Entry}

theorem holding_fresh {r : Reassembler} {p : Push} (hc : p.hdr.count = UInt8.ofNat count) :
    Holding msg count (saturatingAdd p.nowMs r.cfg.timeoutMs) ∅ (r.freshEntry p) :=
  ⟨hc, rfl, carries_fresh r p _⟩

theorem payload_le (msg : Bytes) (i : ℕ) :
    (payloadAt FRAGMENT_PAYLOAD_MAX msg i).length ≤ FRAGMENT_PAYLOAD_MAX := by
  rw [payloadAt_length]
  exact min_le_left _ _

variable (hl : Layout FRAGMENT_PAYLOAD_MAX count msg.length)

include hl in
theorem payload_full {i : ℕ} (hi : i + 1 < count) :
    (payloadAt FRAGMENT_PAYLOAD_MAX msg i).length = FRAGMENT_PAYLOAD_MAX := by
  have hfull := hl.full i hi
  rw [payloadAt_length, Nat.succ_mul] at *
  omega

section

variable {hdr : FragmentHeader} {i : ℕ}

variable (h : Holding msg count deadline J e)
include h

theorem Holding.bit (hlt : i < 4) (hidx : hdr.idx = UInt8.ofNat i) : hdr.idx.toNat = i
      ∧ (e.received &&& (1#8 <<< hdr.idx.toNat) != 0) = decide (i ∈ J) := by
  have htoNat : hdr.idx.toNat = i := by
    rw [hidx, UInt8.toNat_ofNat']
    omega
  rw [htoNat, Bits.and_mask_ne_zero e.received (by omega), h.carries.received_eq i]
  exact ⟨rfl, rfl⟩

theorem Holding.store_duplicate (hlt : i < 4)
    (hidx : hdr.idx = UInt8.ofNat i) (hcount : hdr.count = UInt8.ofNat count) (hi : i ∈ J)
    (payload : Bytes) : e.store hdr payload = .error .duplicate := by
  have hbit := (h.bit hlt hidx).2.trans (decide_eq_true hi)
  have hsame : ¬ e.count ≠ hdr.count := by simp [h.count_eq, hcount]
  rw [Entry.store, if_neg hsame, if_pos hbit]

theorem Holding.record (hi4 : i < 4) {buf : Buffer MAX_MESSAGE}
    (hwrite : e.buf.write (i * FRAGMENT_PAYLOAD_MAX) (payloadAt FRAGMENT_PAYLOAD_MAX msg i) = some buf) :
    Holding msg count deadline (insert i J) (e.record i (payloadAt FRAGMENT_PAYLOAD_MAX msg i) buf) :=
  ⟨h.count_eq, h.deadline_eq, h.carries.record hi4 (payload_le msg i) hwrite⟩

include hl in
theorem Holding.store_new (hlt : i < count)
    (hidx : hdr.idx = UInt8.ofNat i) (hcount : hdr.count = UInt8.ofNat count) (hi : i ∉ J) :
    ∃ e', e.store hdr (payloadAt FRAGMENT_PAYLOAD_MAX msg i) = .ok e'
      ∧ Holding msg count deadline (insert i J) e' := by
  have hc4 : count ≤ 4 := hl.count_le
  obtain ⟨htoNat, hbit⟩ := h.bit (by omega) hidx
  have hshort : ¬ (hdr.idx + 1 < hdr.count ∧
      (payloadAt FRAGMENT_PAYLOAD_MAX msg i).length ≠ FRAGMENT_PAYLOAD_MAX) := by
    rintro ⟨hnext, hne⟩
    refine hne (payload_full hl ?_)
    rw [UInt8.lt_iff_toNat_lt, hidx, hcount, UInt8.toNat_add] at hnext
    simp only [UInt8.toNat_ofNat', UInt8.reduceToNat] at hnext
    omega
  obtain ⟨buf, hwrite⟩ := e.buf.write_isSome (place_fits (show i < 4 by omega) (payload_le msg i))
  refine ⟨_, ?_, h.record (by omega) hwrite⟩
  rw [Entry.store, if_neg (by simp [h.count_eq, hcount]), if_neg (by rwa [hbit, decide_eq_true_eq]),
    if_neg hshort, htoNat, hwrite]

end

theorem Holding.complete_iff (h : Holding msg count deadline J e) (hc : count ≤ 4)
    (hJ : ∀ i ∈ J, i < count) : e.complete = true ↔ J = Finset.range count := by
  have hcount : e.count.toNat = count := by
    rw [h.count_eq, UInt8.toNat_ofNat']
    omega
  rw [← hcount] at hc hJ ⊢
  exact h.carries.complete_iff hc hJ

include hl in
theorem Holding.copyOut_message (h : Holding msg count deadline (Finset.range count) e)
    (scratch : Buffer MAX_MESSAGE) :
    ∃ scratch', e.copyOut (range count) scratch 0 = (scratch', some msg.length)
      ∧ slice scratch'.bytes 0 msg.length = some msg := by
  have hcopy := h.carries.copyOut_message hl.count_le scratch
  rwa [payloads_join hl.covers] at hcopy

/-! ### One push -/

variable {P : Primitives} {ty : MessageType} {id : UInt32} {macKey : Bytes} {source : SourceKey}
  {budget i last : ℕ} {r : Reassembler} {p : Push}

section

/-- The push of fragment `i` of the message, from a validated source. -/
structure IsFragment (P : Primitives) (ty : MessageType) (id : UInt32) (msg macKey : Bytes)
    (budget count : ℕ) (source : SourceKey) (i : ℕ) (p : Push) : Prop where
  source_eq : p.source = source
  validated : p.addrValidated = true
  lt_count : i < count
  hdr_eq : p.hdr = fragmentHeader P ty id macKey count i (payloadAt budget msg i)
  payload_eq : p.payload = payloadAt budget msg i

section

variable (h : IsFragment P ty id msg macKey budget count source i p)
include h

theorem IsFragment.key_eq : p.key = (source, id) := by
  rw [Push.key, h.source_eq, h.hdr_eq]
  rfl

theorem IsFragment.count_eq : p.hdr.count = UInt8.ofNat count := by
  rw [h.hdr_eq]
  rfl

theorem IsFragment.idx_eq : p.hdr.idx = UInt8.ofNat i := by
  rw [h.hdr_eq]
  rfl

end

include hl in
theorem IsFragment.push_eq (h : IsFragment P ty id msg macKey FRAGMENT_PAYLOAD_MAX count source i p)
    (h1 : 1 < count) {r' : Reassembler} {j : ℕ}
    (hloc : (r.expire p.nowMs).locate p = .ok (r', j)) : r.push p = r'.fill j p := by
  have hc : count ≤ 4 := hl.count_le
  have hi := h.lt_count
  have hcount : p.hdr.count.toNat = count := by
    rw [h.count_eq, UInt8.toNat_ofNat']
    omega
  apply push_located (by omega) (by rw [hcount]; exact hc) ?_ ?_ hloc
  · rw [UInt8.lt_iff_toNat_lt, hcount, h.idx_eq, UInt8.toNat_ofNat']
    omega
  · rw [h.payload_eq]
    exact payload_le msg i

theorem inFlight_swept (hd : Distinct Entry.key r.slots) {k : SourceKey × UInt32}
    (h : r.inFlight k = some e) {now : ℕ} (hfresh : now < e.expiresAtMs) :
    (r.expire now).inFlight k = some e := by
  rw [inFlight_expire hd, h, Option.filter_some, if_pos (by simpa using hfresh)]

variable (h1 : 1 < count) (hd : Distinct Entry.key r.slots)
  (h : IsFragment P ty id msg macKey FRAGMENT_PAYLOAD_MAX count source i p)

include hl h1 hd h

theorem push_first (hnone : r.inFlight (source, id) = none) (hroom : (r.expire p.nowMs).HasRoom source) :
    (r.push p).2 = .buffered ∧ ∃ e, (r.push p).1.inFlight (source, id) = some e
      ∧ Holding msg count (saturatingAdd p.nowMs r.cfg.timeoutMs) {i} e := by
  have hswept : position Entry.key p.key (r.expire p.nowMs).slots = none := by
    refine position_eq_none.mpr (entry_eq_none.mp ?_)
    rw [← inFlight, inFlight_expire hd, h.key_eq, hnone, Option.filter_none]
  have hload : p.addrValidated = false →
      (r.expire p.nowMs).occupied < (r.expire p.nowMs).cfg.loadThreshold := by
    simp [h.validated]
  obtain ⟨r', j, hloc, hfree, hset, hj⟩ := locate_new hswept hload (h.source_eq ▸ hroom)
  have hd' : Distinct Entry.key r'.slots := by
    rw [hset]
    exact (frame_insert hfree hswept rfl).distinct hd.evict
  have hfresh : Holding msg count (saturatingAdd p.nowMs r.cfg.timeoutMs) ∅
      ((r.expire p.nowMs).freshEntry p) := holding_fresh h.count_eq
  obtain ⟨e', hstore, hhold⟩ := hfresh.store_new hl h.lt_count h.idx_eq h.count_eq (by simp)
  rw [← h.payload_eq] at hstore
  have hmissing : ¬ e'.complete = true := by
    rw [hhold.complete_iff hl.count_le (by simpa using h.lt_count)]
    intro heq
    have hcard := congrArg Finset.card heq
    simp only [insert_empty_eq, Finset.card_singleton, Finset.card_range] at hcard
    omega
  have hpush : r.push p = ({ r' with slots := r'.slots.set j (some e') }, .buffered) := by
    rw [h.push_eq hl h1 hloc, fill_buffered hj hstore (by simpa using hmissing)]
  rw [hpush]
  refine ⟨rfl, e', ?_, by simpa using hhold⟩
  have hin := inFlight_stored hd' hj hstore
  have hkey : ((r.expire p.nowMs).freshEntry p).key = (source, id) := h.key_eq
  rwa [hkey] at hin

variable (hin : r.inFlight (source, id) = some e) (hhold : Holding msg count deadline J e)
  (hfresh : p.nowMs < deadline)

include hin hhold hfresh

theorem IsFragment.push_existing : ∃ j, r.push p = (r.expire p.nowMs).fill j p
      ∧ (r.expire p.nowMs).slots[j]? = some (some e) := by
  have hswept : (r.expire p.nowMs).inFlight p.key = some e := by
    rw [h.key_eq]
    exact inFlight_swept hd hin (by rw [hhold.deadline_eq]; exact hfresh)
  obtain ⟨j, hloc, hj⟩ := locate_existing (r := r.expire p.nowMs) hd.evict hswept
  exact ⟨j, h.push_eq hl h1 hloc, hj⟩

theorem push_duplicate (hi : i ∈ J) :
    (r.push p).2 = .rejected .duplicate ∧ (r.push p).1.inFlight (source, id) = some e := by
  obtain ⟨j, hpush, hj⟩ := h.push_existing hl h1 hd hin hhold hfresh
  have hi4 : i < 4 := lt_of_lt_of_le h.lt_count hl.count_le
  rw [hpush, fill_error hj (hhold.store_duplicate hi4 h.idx_eq h.count_eq hi p.payload)]
  exact ⟨rfl, inFlight_swept hd hin (by rw [hhold.deadline_eq]; exact hfresh)⟩

theorem push_next (hJ : ∀ k ∈ J, k < count) (hi : i ∉ J) (hmore : insert i J ≠ Finset.range count) :
    (r.push p).2 = .buffered ∧ ∃ e', (r.push p).1.inFlight (source, id) = some e'
      ∧ Holding msg count deadline (insert i J) e' := by
  obtain ⟨j, hpush, hj⟩ := h.push_existing hl h1 hd hin hhold hfresh
  obtain ⟨e', hstore, hhold'⟩ := hhold.store_new hl h.lt_count h.idx_eq h.count_eq hi
  rw [← h.payload_eq] at hstore
  have hmissing : ¬ e'.complete = true := by
    rw [hhold'.complete_iff hl.count_le]
    · exact hmore
    · intro k hk
      rcases Finset.mem_insert.mp hk with rfl | hk
      · exact h.lt_count
      · exact hJ k hk
  have hbuf := fill_buffered hj hstore (by simpa using hmissing)
  rw [hpush, hbuf]
  refine ⟨rfl, e', ?_, hhold'⟩
  have hstored := inFlight_stored (r := r.expire p.nowMs) hd.evict hj hstore
  have hkey : e.key = (source, id) := ((entry_eq_some hd).mp hin).1
  rwa [hkey] at hstored

/-- **The last missing fragment completes the message.** -/
theorem push_last (hi : i ∉ J) (hall : insert i J = Finset.range count) : (r.push p).2 = .complete msg := by
  obtain ⟨j, hpush, hj⟩ := h.push_existing hl h1 hd hin hhold hfresh
  obtain ⟨e', hstore, hhold'⟩ := hhold.store_new hl h.lt_count h.idx_eq h.count_eq hi
  rw [← h.payload_eq] at hstore
  rw [hall] at hhold'
  have hcomplete : e'.complete = true :=
    (hhold'.complete_iff hl.count_le fun k hk => Finset.mem_range.mp hk).mpr rfl
  have hcount : e'.count.toNat = count := by
    have hc : count ≤ 4 := hl.count_le
    rw [hhold'.count_eq, UInt8.toNat_ofNat']
    omega
  obtain ⟨scratch, hcopy, hmsg⟩ := hhold'.copyOut_message hl (r.expire p.nowMs).scratch
  rw [← hcount] at hcopy
  rw [hpush]
  exact fill_complete hj hstore hcomplete hcopy hmsg

end

/-! ### Whole deliveries -/

section

theorem IsFragment.idx_ne {q : Push} {i j : ℕ} (hc : count ≤ 4)
    (h : IsFragment P ty id msg macKey budget count source i p)
    (h' : IsFragment P ty id msg macKey budget count source j q) : p.hdr.idx ≠ q.hdr.idx ↔ i ≠ j := by
  have hi := h.lt_count
  have hj := h'.lt_count
  rw [h.idx_eq, h'.idx_eq, not_iff_not, ← UInt8.toNat_inj, UInt8.toNat_ofNat', UInt8.toNat_ofNat']
  omega

theorem IsFragment.unique {i j : ℕ} (hc : count ≤ 4)
    (h : IsFragment P ty id msg macKey budget count source i p)
    (h' : IsFragment P ty id msg macKey budget count source j p) : i = j := by
  by_contra hne
  exact (h.idx_ne hc h').mpr hne rfl

/-- Some fragments of the message are in flight, the one numbered `last` is not among them. -/
structure Pending (msg : Bytes) (count deadline last : ℕ) (source : SourceKey) (id : UInt32)
    (J : Finset ℕ) (r : Reassembler) : Prop where
  distinct : Distinct Entry.key r.slots
  holding : ∃ e, r.inFlight (source, id) = some e ∧ Holding msg count deadline J e
  missing : last ∉ J
  bound : ∀ k ∈ J, k < count

/-- One push of a delivery: a fragment of the message other than `last`, or other traffic. -/
def Earlier (P : Primitives) (ty : MessageType) (id : UInt32) (msg macKey : Bytes)
    (count last : ℕ) (source : SourceKey) (p : Push) : Prop :=
  (∃ i, IsFragment P ty id msg macKey FRAGMENT_PAYLOAD_MAX count source i p ∧ i ≠ last) ∨ p.key ≠ (source, id)

/-- What a push of a delivery may report: a stored fragment or a duplicate, never completion. -/
def Unfinished (a : Accept) : Prop := a = .buffered ∨ a = .rejected .duplicate

variable (h1 : 1 < count) (hlast : last < count)

include hl h1 hlast

/-- **Step.**  Before the last fragment nothing completes, and nothing held is lost. -/
theorem Pending.push (h : Pending msg count deadline last source id J r)
    (hp : Earlier P ty id msg macKey count last source p) (hfresh : p.nowMs < deadline) :
    ∃ J', J ⊆ J' ∧ Pending msg count deadline last source id J' (r.push p).1
      ∧ ∀ i, IsFragment P ty id msg macKey FRAGMENT_PAYLOAD_MAX count source i p →
        i ∈ J' ∧ Unfinished (r.push p).2 := by
  obtain ⟨e, hin, hhold⟩ := h.holding
  rcases hp with ⟨i, hi, hne⟩ | hother
  · by_cases hmem : i ∈ J
    · obtain ⟨hres, hstill⟩ := push_duplicate hl h1 h.distinct hi hin hhold hfresh hmem
      refine ⟨J, Finset.Subset.refl J, ⟨push_distinct h.distinct p, ⟨e, hstill, hhold⟩, h.missing,
        h.bound⟩, fun j hj => ?_⟩
      rw [hj.unique hl.count_le hi]
      exact ⟨hmem, .inr hres⟩
    · have hmiss : last ∉ insert i J := by
        simp only [Finset.mem_insert, not_or]
        exact ⟨fun hc => hne hc.symm, h.missing⟩
      have hmore : insert i J ≠ Finset.range count := by
        intro heq
        exact hmiss (heq ▸ Finset.mem_range.mpr hlast)
      obtain ⟨hres, e', hin', hhold'⟩ :=
        push_next hl h1 h.distinct hi hin hhold hfresh h.bound hmem hmore
      refine ⟨insert i J, Finset.subset_insert i J, ⟨push_distinct h.distinct p, ⟨e', hin', hhold'⟩,
        hmiss, ?_⟩, fun j hj => ?_⟩
      · intro k hk
        rcases Finset.mem_insert.mp hk with rfl | hk
        · exact hi.lt_count
        · exact h.bound k hk
      · rw [hj.unique hl.count_le hi]
        exact ⟨Finset.mem_insert_self i J, .inl hres⟩
  · have hstill := push_other_some h.distinct hother hin (by rw [hhold.deadline_eq]; exact hfresh)
    refine ⟨J, Finset.Subset.refl J, ⟨push_distinct h.distinct p, ⟨e, hstill, hhold⟩, h.missing,
      h.bound⟩, fun j hj => absurd hj.key_eq hother⟩

/-- **Run.**  The same over any sequence of such pushes. -/
theorem Pending.run (ps : List Push) (h : Pending msg count deadline last source id J r)
    (hps : ∀ p ∈ ps, Earlier P ty id msg macKey count last source p ∧ p.nowMs < deadline) :
    ∃ J', J ⊆ J' ∧ Pending msg count deadline last source id J' (r.run ps) ∧ ∀ o ∈ r.outcomes ps, ∀ i,
        IsFragment P ty id msg macKey FRAGMENT_PAYLOAD_MAX count source i o.1 → i ∈ J' ∧ Unfinished o.2 := by
  induction ps generalizing r J with
  | nil => exact ⟨J, Finset.Subset.refl J, h, by simp [outcomes]⟩
  | cons p ps ih =>
    obtain ⟨hp, hfresh⟩ := hps p (by simp)
    obtain ⟨J₁, hsub₁, hpend₁, hres₁⟩ := h.push hl h1 hlast hp hfresh
    obtain ⟨J₂, hsub₂, hpend₂, hres₂⟩ := ih hpend₁ fun q hq => hps q (by simp [hq])
    refine ⟨J₂, hsub₁.trans hsub₂, hpend₂, ?_⟩
    intro o ho i hi
    rcases mem_cons.mp ho with rfl | ho
    · exact ⟨hsub₂ (hres₁ i hi).1, (hres₁ i hi).2⟩
    · exact hres₂ o ho i hi

end

theorem run_other_none {r : Reassembler} {k : SourceKey × UInt32} (ps : List Push)
    (hd : Distinct Entry.key r.slots) (hps : ∀ p ∈ ps, p.key ≠ k) (h : r.inFlight k = none) :
    (r.run ps).inFlight k = none := by
  induction ps generalizing r with
  | nil => exact h
  | cons p ps ih =>
    exact ih (push_distinct hd p) (fun q hq => hps q (by simp [hq]))
      (push_other_none hd (hps p (by simp)) h)

theorem exists_first {α : Type*} {q : α → Prop} {l : List α} (h : ∃ a ∈ l, q a) :
    ∃ l₁ a l₂, l = l₁ ++ a :: l₂ ∧ q a ∧ ∀ b ∈ l₁, ¬ q b := by
  induction l with
  | nil => simp at h
  | cons a l ih =>
    by_cases ha : q a
    · exact ⟨[], a, l, rfl, ha, by simp⟩
    · obtain ⟨b, hb, hqb⟩ := h
      rcases mem_cons.mp hb with rfl | hb
      · exact absurd hqb ha
      · obtain ⟨l₁, c, l₂, rfl, hc, hl₁⟩ := ih ⟨b, hb, hqb⟩
        refine ⟨a :: l₁, c, l₂, rfl, hc, ?_⟩
        intro d hd
        rcases mem_cons.mp hd with rfl | hd
        · exact ha
        · exact hl₁ d hd

/-- A push that offers one of the datagrams, split, from a validated source. -/
def Ours (ds : List Bytes) (source : SourceKey) (p : Push) : Prop :=
  p.source = source ∧ p.addrValidated = true ∧ ∃ d ∈ ds, splitDatagram d = .ok (p.hdr, p.payload)

/-- A delivery of the datagrams `ds` to a reassembler: any order, any duplicates and any traffic for
other keys, up to the push of the last missing datagram. -/
structure Delivery (ds : List Bytes) (source : SourceKey) (id : UInt32) (r : Reassembler)
    (pre : List Push) (last : Push) : Prop where
  pushes : ∀ p ∈ pre, Ours ds source p ∨ p.key ≠ (source, id)
  last_ours : Ours ds source last
  last_missing : ∀ p ∈ pre, Ours ds source p → p.hdr.idx ≠ last.hdr.idx
  rest_pushed : ∀ d ∈ ds, ∀ hdr payload, splitDatagram d = .ok (hdr, payload) →
    hdr.idx ≠ last.hdr.idx → ∃ p ∈ pre, Ours ds source p ∧ p.hdr.idx = hdr.idx
  /-- A fragmented message has room when its first fragment arrives, and the reassembly timeout that
  starts there does not run out. -/
  budget : 1 < ds.length → ∀ idle first rest, pre ++ [last] = idle ++ first :: rest →
    Ours ds source first → (∀ q ∈ idle, ¬ Ours ds source q) → ((r.run idle).expire first.nowMs).HasRoom source
        ∧ ∀ q ∈ rest, q.nowMs < saturatingAdd first.nowMs r.cfg.timeoutMs

theorem ours_iff (hl : Layout budget count msg.length) :
    Ours ((range count).map (datagramAt P ty id msg macKey budget count)) source p ↔
      ∃ i, IsFragment P ty id msg macKey budget count source i p := by
  constructor
  · rintro ⟨hs, hv, d, hd, hsplit⟩
    obtain ⟨i, hi, rfl⟩ := mem_map.mp hd
    have hi := mem_range.mp hi
    rw [splitDatagram_datagramAt hl hi, ok.injEq, Prod.mk.injEq] at hsplit
    exact ⟨i, hs, hv, hi, hsplit.1.symm, hsplit.2.symm⟩
  · rintro ⟨i, hs, hv, hi, hhdr, hpay⟩
    refine ⟨hs, hv, datagramAt P ty id msg macKey budget count i, mem_map.mpr ⟨i, mem_range.mpr hi, rfl⟩, ?_⟩
    rw [splitDatagram_datagramAt hl hi, hhdr, hpay]

theorem push_single (hl : Layout budget 1 msg.length) {i : ℕ}
    (h : IsFragment P ty id msg macKey budget 1 source i p) : (r.push p).2 = .complete msg := by
  have hi : i = 0 := by
    have := h.lt_count
    omega
  subst hi
  have hpayload : p.payload = msg := by
    have hcovers := hl.covers
    rw [Nat.one_mul] at hcovers
    rw [h.payload_eq, payloadAt, Nat.zero_mul, drop_zero, take_of_length_le hcovers]
  have hlen : msg.length ≤ TRANSPORT_PAYLOAD_MAX := by
    have := hl.covers
    have := hl.budget_le
    omega
  have hguard : ¬ (MAX_FRAGMENTS < p.hdr.count.toNat ∨ p.hdr.count ≤ p.hdr.idx) := by
    rw [h.count_eq, h.idx_eq]
    decide
  have hone : p.hdr.count = 1 := h.count_eq
  rw [push, if_neg hguard, if_pos hone, completeUnfragmented_eq, hpayload, if_neg (Nat.not_lt.mpr hlen)]

include hl in
theorem roundTrip_fragmented (h1 : 1 < count) (hd : Distinct Entry.key r.slots)
    (hnone : r.inFlight (source, id) = none) {pre : List Push}
    {last : Push} (hdel : Delivery ((range count).map
      (datagramAt P ty id msg macKey FRAGMENT_PAYLOAD_MAX count)) source id r pre last) :
    ((r.run pre).push last).2 = .complete msg ∧ ∀ o ∈ r.outcomes pre, Ours ((range count).map
          (datagramAt P ty id msg macKey FRAGMENT_PAYLOAD_MAX count)) source o.1 → Unfinished o.2 := by
  have hc : count ≤ 4 := hl.count_le
  obtain ⟨L, hL⟩ := (ours_iff hl).mp hdel.last_ours
  -- every index but the last missing one was pushed before
  have hcover k (hk : k < count) (hkL : k ≠ L) :
      ∃ p ∈ pre, IsFragment P ty id msg macKey FRAGMENT_PAYLOAD_MAX count source k p := by
    have hfrag : IsFragment P ty id msg macKey FRAGMENT_PAYLOAD_MAX count source k
        ⟨source, true, _, payloadAt FRAGMENT_PAYLOAD_MAX msg k, 0⟩ := ⟨rfl, rfl, hk, rfl, rfl⟩
    obtain ⟨p, hp, hours, hidx⟩ := hdel.rest_pushed _
      (mem_map.mpr ⟨k, mem_range.mpr hk, rfl⟩) _ _ (splitDatagram_datagramAt hl hk)
      ((hfrag.idx_ne hc hL).mpr hkL)
    obtain ⟨j, hj⟩ := (ours_iff hl).mp hours
    obtain rfl : j = k := by
      by_contra hne
      exact (hj.idx_ne hc hfrag).mpr hne hidx
    exact ⟨p, hp, hj⟩
  obtain ⟨k₀, hk₀, hk₀L⟩ : ∃ k, k < count ∧ k ≠ L := by
    by_cases hL0 : L = 0
    · exact ⟨1, h1, by omega⟩
    · exact ⟨0, by omega, fun h => hL0 h.symm⟩
  obtain ⟨p₀, hp₀, hfrag₀⟩ := hcover k₀ hk₀ hk₀L
  obtain ⟨idle, first, rest, rfl, hfirst, hidle⟩ :=
    exists_first ⟨p₀, hp₀, (ours_iff hl).mpr ⟨k₀, hfrag₀⟩⟩
  have hlen : 1 < ((range count).map
      (datagramAt P ty id msg macKey FRAGMENT_PAYLOAD_MAX count)).length := by simpa using h1
  obtain ⟨hroom, htime⟩ := hdel.budget hlen idle first (rest ++ [last]) (by simp) hfirst hidle
  obtain ⟨i₀, hi₀⟩ := (ours_iff hl).mp hfirst
  have hothers : ∀ q ∈ idle, q.key ≠ (source, id) := fun q hq =>
    (hdel.pushes q (by simp [hq])).resolve_left (hidle q hq)
  have hd₁ := run_distinct hd idle
  obtain ⟨hres₀, e, hin, hhold⟩ := push_first hl h1 hd₁ hi₀ (run_other_none idle hd hothers hnone) hroom
  rw [run_cfg] at hhold
  have hi₀L : i₀ ≠ L := (hi₀.idx_ne hc hL).mp (hdel.last_missing first (by simp) hfirst)
  have hpend : Pending msg count (saturatingAdd first.nowMs r.cfg.timeoutMs) L source id {i₀}
      ((r.run idle).push first).1 :=
    ⟨push_distinct hd₁ first, ⟨e, hin, hhold⟩, by simpa using fun h => hi₀L h.symm,
      by simpa using hi₀.lt_count⟩
  have hrest : ∀ p ∈ rest, Earlier P ty id msg macKey count L source p
      ∧ p.nowMs < saturatingAdd first.nowMs r.cfg.timeoutMs := by
    intro p hp
    refine ⟨?_, htime p (by simp [hp])⟩
    rcases hdel.pushes p (by simp [hp]) with hours | hkey
    · obtain ⟨i, hi⟩ := (ours_iff hl).mp hours
      exact .inl ⟨i, hi, (hi.idx_ne hc hL).mp (hdel.last_missing p (by simp [hp]) hours)⟩
    · exact .inr hkey
  obtain ⟨J, hsub, hpend', hres⟩ := hpend.run hl h1 hL.lt_count rest hrest
  have hrun : r.run (idle ++ first :: rest) = ((r.run idle).push first).1.run rest := by
    rw [run_append]
    rfl
  have hall : insert L J = Finset.range count := by
    ext k
    rw [Finset.mem_insert, Finset.mem_range]
    constructor
    · rintro (rfl | hk)
      · exact hL.lt_count
      · exact hpend'.bound k hk
    · intro hk
      by_cases hkL : k = L
      · exact .inl hkL
      · right
        obtain ⟨p, hp, hfrag⟩ := hcover k hk hkL
        rcases mem_append.mp hp with hp | hp
        · exact absurd ((ours_iff hl).mpr ⟨k, hfrag⟩) (hidle p hp)
        · rcases mem_cons.mp hp with rfl | hp
          · exact hsub (by simp [hfrag.unique hc hi₀])
          · obtain ⟨o, ho, rfl⟩ := exists_outcome hp
            exact (hres o ho k hfrag).1
  obtain ⟨e', hin', hhold'⟩ := hpend'.holding
  refine ⟨?_, ?_⟩
  · rw [hrun]
    exact push_last hl h1 hpend'.distinct hL hin' hhold' (htime last (by simp)) hpend'.missing hall
  · intro o ho hours
    obtain ⟨i, hi⟩ := (ours_iff hl).mp hours
    rw [outcomes_append, mem_append] at ho
    rcases ho with ho | ho
    · exact absurd hours (hidle _ (mem_outcomes ho))
    · rcases mem_cons.mp ho with rfl | ho
      · exact .inl hres₀
      · exact (hres o ho i hi).2

/-- **Fragmentation round trip.**  In any order, with duplicates and other traffic, a message is
complete exactly at its last missing fragment. -/
theorem fragment_roundTrip {P : Primitives} {ty : MessageType} {id : UInt32} {msg macKey : Bytes}
    {source : SourceKey} {ds : List Bytes} (hfrag : fragment P ty id msg macKey = some ds)
    (cfg : Config) (history : List Push)
    (hnone : ((new cfg).run history).inFlight (source, id) = none) {pre : List Push} {last : Push}
    (hdel : Delivery ds source id ((new cfg).run history) pre last) :
    ((((new cfg).run history).run pre).push last).2 = .complete msg
      ∧ (∀ o ∈ ((new cfg).run history).outcomes pre, Ours ds source o.1 →
          o.2 = .buffered ∨ o.2 = .rejected .duplicate)
      ∧ (∀ d ∈ ds, ∀ hdr payload, splitDatagram d = .ok (hdr, payload) →
          verifyFragMac P macKey ty.toByte id hdr.idx hdr.count payload hdr.fragMac = true) := by
  obtain ⟨budget, count, hl, rfl⟩ := fragment_eq_some hfrag
  have hd := run_distinct (new_distinct cfg) history
  have hverify : ∀ d ∈ (range count).map (datagramAt P ty id msg macKey budget count),
      ∀ hdr payload, splitDatagram d = .ok (hdr, payload) →
        verifyFragMac P macKey ty.toByte id hdr.idx hdr.count payload hdr.fragMac = true := by
    intro d hd hdr payload hsplit
    obtain ⟨i, hi, rfl⟩ := mem_map.mp hd
    rw [splitDatagram_datagramAt hl (mem_range.mp hi), ok.injEq, Prod.mk.injEq] at hsplit
    rw [← hsplit.1, ← hsplit.2]
    exact beq_self_eq_true _
  obtain ⟨L, hL⟩ := (ours_iff hl).mp hdel.last_ours
  rcases Nat.lt_or_ge 1 count with h1 | h1
  · obtain rfl := hl.fragmented h1
    obtain ⟨hlast, hpre⟩ := roundTrip_fragmented hl h1 hd hnone hdel
    exact ⟨hlast, hpre, hverify⟩
  · -- one datagram: nothing of ours can come before it
    obtain rfl : count = 1 := by
      have := hL.lt_count
      omega
    refine ⟨push_single hl hL, ?_, hverify⟩
    intro o ho hours
    obtain ⟨i, hi⟩ := (ours_iff hl).mp hours
    have hmissing := (hi.idx_ne (by decide) hL).mp (hdel.last_missing _ (mem_outcomes ho) hours)
    have hi1 := hi.lt_count
    have hL1 := hL.lt_count
    omega

def twoPieces : Bytes := List.replicate 1209 7

def piece (i now : ℕ) : Push where
  source := Vector.replicate 18 1
  addrValidated := true
  hdr := fragmentHeader reference .handshakeInit 9 [] 2 i (payloadAt FRAGMENT_PAYLOAD_MAX twoPieces i)
  payload := payloadAt FRAGMENT_PAYLOAD_MAX twoPieces i
  nowMs := now

def stranger : Push := { piece 0 2 with source := Vector.replicate 18 2 }

theorem twoPieces_plan : plan .handshakeInit twoPieces.length = some (FRAGMENT_PAYLOAD_MAX, 2) := by
  rw [twoPieces, length_replicate]
  decide

theorem piece_ours {i : ℕ} (hi : i < 2) (now : ℕ) :
    Ours ((range 2).map (datagramAt reference .handshakeInit 9 twoPieces []
      FRAGMENT_PAYLOAD_MAX 2)) (Vector.replicate 18 1) (piece i now) :=
  (ours_iff (layout_plan twoPieces_plan)).mpr ⟨i, rfl, rfl, hi, rfl, rfl⟩

theorem stranger_source : stranger.source ≠ Vector.replicate 18 1 := by decide

theorem twoPieces_delivery : Delivery ((range 2).map (datagramAt reference .handshakeInit 9 twoPieces []
      FRAGMENT_PAYLOAD_MAX 2)) (Vector.replicate 18 1) 9 ((new Config.default).run [])
      [piece 1 0, stranger, piece 1 5] (piece 0 9) where
  pushes p hp := by
    simp only [mem_cons, not_mem_nil, or_false] at hp
    rcases hp with rfl | rfl | rfl
    · exact .inl (piece_ours (by decide) 0)
    · exact .inr fun h => stranger_source (congrArg Prod.fst h)
    · exact .inl (piece_ours (by decide) 5)
  last_ours := piece_ours (by decide) 9
  last_missing p hp hours := by
    simp only [mem_cons, not_mem_nil, or_false] at hp
    rcases hp with rfl | rfl | rfl
    · exact (by decide : (1 : UInt8) ≠ 0)
    · exact absurd hours.1 stranger_source
    · exact (by decide : (1 : UInt8) ≠ 0)
  rest_pushed d hd hdr payload hsplit hne := by
    refine ⟨piece 1 0, by simp, piece_ours (by decide) 0, ?_⟩
    obtain ⟨i, hi, rfl⟩ := mem_map.mp hd
    have hi2 := mem_range.mp hi
    rw [splitDatagram_datagramAt (layout_plan twoPieces_plan) hi2, ok.injEq, Prod.mk.injEq] at hsplit
    obtain ⟨rfl, -⟩ := hsplit
    have hi1 : i = 1 := by
      by_contra h
      have hi0 : i = 0 := by omega
      subst hi0
      exact hne rfl
    subst hi1
    rfl
  budget _ idle first rest heq _ hidle := by
    cases idle with
    | cons q idle =>
      have hhead : piece 1 0 = q := (cons.inj heq).1
      exact absurd (hhead ▸ piece_ours (by decide) 0) (hidle q (by simp))
    | nil =>
      simp only [cons_append, nil_append, cons.injEq] at heq
      obtain ⟨rfl, rfl⟩ := heq
      refine ⟨⟨by decide +kernel, by decide +kernel⟩, ?_⟩
      intro q hq
      simp only [mem_cons, not_mem_nil, or_false] at hq
      rcases hq with rfl | rfl | rfl <;> decide

theorem fragment_roundTrip_twoPieces : fragment reference .handshakeInit 9 twoPieces []
        = some ((List.range 2).map (datagramAt reference .handshakeInit 9 twoPieces []
            FRAGMENT_PAYLOAD_MAX 2))
      ∧ ((((new Config.default).run []).run [piece 1 0, stranger, piece 1 5]).push (piece 0 9)).2
        = .complete twoPieces := by
  have hfrag : fragment reference .handshakeInit 9 twoPieces []
      = some ((range 2).map (datagramAt reference .handshakeInit 9 twoPieces []
          FRAGMENT_PAYLOAD_MAX 2)) := fragment_of_plan twoPieces_plan
  refine ⟨hfrag, (fragment_roundTrip hfrag Config.default [] ?_ twoPieces_delivery).1⟩
  decide +kernel

end Karst.Proto
