import Karst.Crypto.Reference
import Karst.Proto.Contents

/-!
# What a completed message is made of

The other side of the round trip: whatever is pushed, by whoever and whenever, a message that comes
out is spelled by fragments that went in.

The invariant is `Collected`: every entry in the table was opened by one push of the history and
carries payloads pushed since, under the entry's own source, id and count.
-/

namespace Karst.Proto

open SlotTable Reassembler Crypto Option Function
open List hiding Vector

/-! ### The entry a push works on -/

/-- The entry is in flight and not expired, or freshly allocated. -/
structure WorksOn (r : Reassembler) (p : Push) (e : Entry) : Prop where
  inRange : InRange p
  key_eq : e.key = p.key
  origin : (some e ∈ r.slots ∧ p.nowMs < e.expiresAtMs) ∨ e = r.freshEntry p

variable {r : Reassembler} {p : Push} {e : Entry}

theorem mem_expire {now : ℕ} (h : some e ∈ (r.expire now).slots) :
    some e ∈ r.slots ∧ now < e.expiresAtMs := by
  obtain ⟨i, hi⟩ := getElem?_of_mem h
  obtain ⟨hin, hfresh⟩ := getElem?_evict.mp hi
  exact ⟨mem_of_getElem? hin, by simpa using hfresh⟩

variable {i : ℕ} {e' : Entry} {m : Bytes} {ps : List Push}

theorem worksOn_locate (hp : InRange p) {r' : Reassembler} (h : (r.expire p.nowMs).locate p = .ok (r', i)) :
    ∃ e₀, WorksOn r p e₀ ∧ r'.slots[i]? = some (some e₀)
      ∧ ∀ e, some e ∈ r'.slots → some e ∈ r.slots ∨ e = e₀ := by
  rcases locate_cases h with ⟨rfl, e₀, hi, hk⟩ | ⟨-, hf, -, -, rfl⟩
  · refine ⟨e₀, ⟨hp, hk, .inl (mem_expire (mem_of_getElem? hi))⟩, hi, ?_⟩
    intro e he
    exact .inl (mem_expire he).1
  · have hlt := (List.getElem?_eq_some_iff.mp (free_spec hf)).1
    refine ⟨r.freshEntry p, ⟨hp, rfl, .inr rfl⟩, ?_, ?_⟩
    · rw [getElem?_store hlt, if_pos rfl]
      rfl
    · intro e he
      rcases mem_or_eq_of_mem_set he with he | he
      · exact .inl (mem_expire he).1
      · exact .inr (some.inj he)

theorem mem_finish (h : some e ∈ (r.finish i e').1.slots) : some e ∈ r.slots := by
  have hset : some e ∈ r.slots.set i none → some e ∈ r.slots := by
    intro hmem
    rcases mem_or_eq_of_mem_set hmem with hmem | hmem
    · exact hmem
    · simp at hmem
  unfold finish at h
  split at h
  · exact h
  · split at h <;> exact hset h

theorem mem_fill {e₀ : Entry} (hi : r.slots[i]? = some (some e₀))
    (h : some e ∈ (r.fill i p).1.slots) : some e ∈ r.slots ∨ e₀.store p.hdr p.payload = .ok e := by
  cases hs : e₀.store p.hdr p.payload with
  | error reason =>
    rw [fill_error hi hs] at h
    exact .inl h
  | ok e' =>
    have hset : some e ∈ r.slots.set i (some e') → some e ∈ r.slots ∨ e' = e := by
      intro hmem
      rcases mem_or_eq_of_mem_set hmem with hmem | hmem
      · exact .inl hmem
      · exact .inr (some.inj hmem).symm
    rw [Except.ok.injEq]
    by_cases hc : e'.complete = true
    · rw [fill_finish hi hs hc] at h
      exact hset (mem_finish h)
    · rw [fill_buffered hi hs (by simpa using hc)] at h
      exact hset h

/-- **Where entries come from.**  After a push every entry was there before, or is the one worked
on, as it was found or with the fragment stored. -/
theorem mem_push (h : some e ∈ (r.push p).1.slots) : some e ∈ r.slots
      ∨ ∃ e₀, WorksOn r p e₀ ∧ (e = e₀ ∨ e₀.store p.hdr p.payload = .ok e) := by
  rcases push_cases r p with ⟨-, hp⟩ | ⟨-, -, hp⟩ | ⟨reason, hp⟩ | ⟨hrange, r', i, hl, hp⟩
  · rw [hp] at h
    exact .inl h
  · rw [hp, completeUnfragmented_same.1] at h
    exact .inl h
  · rw [hp] at h
    exact .inl (mem_expire h).1
  · rw [hp] at h
    obtain ⟨e₀, hw, hi, hothers⟩ := worksOn_locate hrange hl
    rcases mem_fill hi h with h | h
    · rcases hothers e h with h | h
      · exact .inl h
      · exact .inr ⟨e₀, hw, .inl h⟩
    · exact .inr ⟨e₀, hw, .inr h⟩

theorem completeUnfragmented_complete {payload : Bytes}
    (h : (r.completeUnfragmented payload).2 = .complete m) : m = payload := by
  rw [completeUnfragmented_eq] at h
  split at h
  · simp at h
  · exact (Accept.complete.inj h).symm

/-- **Where messages come from.**  A lone fragment, or the copy-out of the entry worked on. -/
theorem push_complete (h : (r.push p).2 = .complete m) :
    (p.hdr.count = 1 ∧ p.hdr.idx < p.hdr.count ∧ m = p.payload)
      ∨ ∃ e₀ e' scratch scratch' total, WorksOn r p e₀ ∧ e₀.store p.hdr p.payload = .ok e'
        ∧ e'.complete = true ∧ e'.copyOut (range e'.count.toNat) scratch 0 = (scratch', some total)
        ∧ slice scratch'.bytes 0 total = some m := by
  rcases push_cases r p with ⟨-, hp⟩ | ⟨hone, hidx, hp⟩ | ⟨reason, hp⟩ | ⟨hrange, r', i, hl, hp⟩
  · simp [hp] at h
  · rw [hp] at h
    exact .inl ⟨hone, hidx, completeUnfragmented_complete h⟩
  · simp [hp] at h
  · right
    rw [hp] at h
    obtain ⟨e₀, hw, hi, -⟩ := worksOn_locate hrange hl
    cases hs : e₀.store p.hdr p.payload with
    | error reason => simp [fill_error hi hs] at h
    | ok e' =>
      by_cases hc : e'.complete = true
      · rw [fill_finish hi hs hc] at h
        simp only [finish] at h
        cases hcopy : e'.copyOut (range e'.count.toNat) r'.scratch 0 with
        | mk scratch' total =>
          cases total with
          | none => simp [hcopy] at h
          | some total =>
            simp only [hcopy] at h
            cases hmsg : slice scratch'.bytes 0 total with
            | none => simp [hmsg] at h
            | some msg =>
              simp only [hmsg, Accept.complete.injEq] at h
              exact ⟨e₀, e', r'.scratch, scratch', total, hw, hs, hc, hcopy, by rw [hmsg, h]⟩
      · simp [fill_buffered hi hs (by simpa using hc)] at h

/-! ### Entries and the history -/

/-- The entry was opened by the push `opener`, and carries for each `i ∈ J` the payload of
`frag i`: a push of its fragment `i`, made `since` and before the deadline. -/
structure Collected (timeout : ℕ) (opener : Push) (since : List Push) (frag : ℕ → Push)
    (J : Finset ℕ) (e : Entry) : Prop where
  opener_key : opener.key = e.key
  opener_count : opener.hdr.count = e.count
  deadline_le : e.expiresAtMs ≤ opener.nowMs + timeout
  count_le : e.count.toNat ≤ 4
  carries : Carries (fun i => (frag i).payload) J e
  bound : ∀ i ∈ J, i < e.count.toNat
  fragment : ∀ i ∈ J, (frag i).key = e.key ∧ (frag i).hdr.count = e.count ∧ (frag i).hdr.idx.toNat = i
  in_time : ∀ i ∈ J, frag i ∈ opener :: since ∧ (frag i).nowMs ≤ opener.nowMs + timeout

variable {timeout : ℕ} {opener : Push} {since : List Push} {frag : ℕ → Push} {J : Finset ℕ}

theorem Collected.later (h : Collected timeout opener since frag J e) (p : Push) :
    Collected timeout opener (since ++ [p]) frag J e := by
  refine { h with in_time := ?_ }
  intro i hi
  obtain ⟨hmem, htime⟩ := h.in_time i hi
  exact ⟨mem_append_left _ hmem, htime⟩

theorem collected_fresh (hp : InRange p) (frag : ℕ → Push) :
    Collected r.cfg.timeoutMs p [] frag ∅ (r.freshEntry p) where
  opener_key := rfl
  opener_count := rfl
  deadline_le := min_le_left _ _
  count_le := hp.count_le
  carries := carries_fresh r p _
  bound i hi := absurd hi (Finset.notMem_empty i)
  fragment i hi := absurd hi (Finset.notMem_empty i)
  in_time i hi := absurd hi (Finset.notMem_empty i)

theorem store_ok {hdr : FragmentHeader} {payload : Bytes} (h : e.store hdr payload = .ok e') :
    e.count = hdr.count ∧ (e.received &&& (1#8 <<< hdr.idx.toNat) != 0) = false
      ∧ ∃ buf, e.buf.write (hdr.idx.toNat * FRAGMENT_PAYLOAD_MAX) payload = some buf
        ∧ e' = e.record hdr.idx.toNat payload buf := by
  unfold Entry.store at h
  split at h
  · simp at h
  · rename_i hcount
    split at h
    · simp at h
    · rename_i hnew
      split at h
      · simp at h
      · split at h
        · simp at h
        · rename_i buf hwrite
          exact ⟨not_not.mp hcount, by simpa using hnew, buf, hwrite, (Except.ok.inj h).symm⟩

theorem Collected.store (h : Collected timeout opener since frag J e) (hp : InRange p)
    (hk : e.key = p.key) (hmem : p ∈ opener :: since) (htime : p.nowMs ≤ opener.nowMs + timeout)
    (hs : e.store p.hdr p.payload = .ok e') :
    Collected timeout opener since (update frag p.hdr.idx.toNat p) (insert p.hdr.idx.toNat J) e' := by
  obtain ⟨hcount, hnew, buf, hwrite, rfl⟩ := store_ok hs
  have hidx : p.hdr.idx.toNat < e.count.toNat := by
    rw [hcount]
    exact UInt8.lt_iff_toNat_lt.mp hp.idx_lt
  have hi4 : p.hdr.idx.toNat < 4 := lt_of_lt_of_le hidx h.count_le
  have hmissing : p.hdr.idx.toNat ∉ J := by
    rw [Bits.and_mask_ne_zero e.received (by omega), h.carries.received_eq] at hnew
    simpa using hnew
  have hself : update frag p.hdr.idx.toNat p p.hdr.idx.toNat = p :=
    update_self p.hdr.idx.toNat p frag
  have hold i (hi : i ∈ J) : update frag p.hdr.idx.toNat p i = frag i := by
    have hne : i ≠ p.hdr.idx.toNat := by
      intro heq
      exact hmissing (heq ▸ hi)
    exact update_of_ne hne p frag
  have hcarries : Carries (fun i => (update frag p.hdr.idx.toNat p i).payload) J e :=
    h.carries.congr fun i hi => by rw [hold i hi]
  have hrecord := hcarries.record hi4 (by rw [hself]; exact hp.fits)
    (show e.buf.write _ (update frag _ p _).payload = some buf by rw [hself]; exact hwrite)
  rw [hself] at hrecord
  refine ⟨h.opener_key, h.opener_count, h.deadline_le, h.count_le, hrecord, ?_, ?_, ?_⟩
  · intro i hi
    rcases Finset.mem_insert.mp hi with rfl | hi
    · exact hidx
    · exact h.bound i hi
  · intro i hi
    rcases Finset.mem_insert.mp hi with rfl | hi
    · rw [hself]
      exact ⟨hk.symm, hcount.symm, rfl⟩
    · rw [hold i hi]
      exact h.fragment i hi
  · intro i hi
    rcases Finset.mem_insert.mp hi with rfl | hi
    · rw [hself]
      exact ⟨hmem, htime⟩
    · rw [hold i hi]
      exact h.in_time i hi

/-- Every entry of the table is accounted for by the history. -/
def Accounted (ps : List Push) (r : Reassembler) : Prop :=
  ∀ e, some e ∈ r.slots → ∃ before opener since frag J,
    ps = before ++ opener :: since ∧ Collected r.cfg.timeoutMs opener since frag J e

theorem Accounted.worksOn (h : Accounted ps r) (hw : WorksOn r p e) :
    ∃ before opener since frag J, ps ++ [p] = before ++ opener :: since
      ∧ Collected r.cfg.timeoutMs opener since frag J e ∧ ∀ e', e.store p.hdr p.payload = .ok e' →
        Collected r.cfg.timeoutMs opener since (update frag p.hdr.idx.toNat p)
          (insert p.hdr.idx.toNat J) e' := by
  rcases hw.origin with ⟨hin, hfresh⟩ | rfl
  · obtain ⟨before, opener, since, frag, J, rfl, hcol⟩ := h e hin
    have htime : p.nowMs ≤ opener.nowMs + r.cfg.timeoutMs := by
      have := hcol.deadline_le
      omega
    refine ⟨before, opener, since ++ [p], frag, J, by simp, hcol.later p, ?_⟩
    intro e' hs
    exact (hcol.later p).store hw.inRange hw.key_eq (by simp) htime hs
  · have hcol := collected_fresh (r := r) hw.inRange fun _ => p
    refine ⟨ps, p, [], fun _ => p, ∅, rfl, hcol, ?_⟩
    intro e' hs
    exact hcol.store hw.inRange rfl mem_cons_self (Nat.le_add_right _ _) hs

theorem Accounted.push (h : Accounted ps r) (p : Push) : Accounted (ps ++ [p]) (r.push p).1 := by
  intro e he
  rw [push_cfg]
  rcases mem_push he with hold | ⟨e₀, hw, hcase⟩
  · obtain ⟨before, opener, since, frag, J, rfl, hcol⟩ := h e hold
    exact ⟨before, opener, since ++ [p], frag, J, by simp, hcol.later p⟩
  · obtain ⟨before, opener, since, frag, J, hps, hcol, hstore⟩ := h.worksOn hw
    rcases hcase with rfl | hs
    · exact ⟨before, opener, since, frag, J, hps, hcol⟩
    · exact ⟨before, opener, since, _, _, hps, hstore e hs⟩

theorem accounted_run (cfg : Config) (ps : List Push) : Accounted ps ((new cfg).run ps) := by
  induction ps using reverseRecOn with
  | nil =>
    intro e he
    simp [Reassembler.run, new] at he
  | append_singleton ps p ih =>
    rw [run_append]
    exact ih.push p

theorem Collected.message (h : Collected timeout opener since frag J e) (hc : e.complete = true)
    {scratch scratch' : Buffer MAX_MESSAGE} {total : ℕ}
    (hcopy : e.copyOut (range e.count.toNat) scratch 0 = (scratch', some total))
    (hm : slice scratch'.bytes 0 total = some m) : J = Finset.range e.count.toNat
      ∧ m = ((range e.count.toNat).map fun i => (frag i).payload).flatten := by
  have hall := (h.carries.complete_iff h.count_le h.bound).mp hc
  have hcarries := h.carries
  rw [hall] at hcarries
  obtain ⟨out, hout, hmsg⟩ := hcarries.copyOut_message h.count_le scratch
  rw [hcopy, Prod.mk.injEq, some.injEq] at hout
  obtain ⟨rfl, rfl⟩ := hout
  exact ⟨hall, some.inj (hm.symm.trans hmsg)⟩

theorem times_close {before : List Push} {a b : Push}
    (hsorted : (before ++ opener :: since).Pairwise fun a b => a.nowMs ≤ b.nowMs)
    (ha : a.nowMs ≤ opener.nowMs + timeout) (hb : b ∈ opener :: since) : a.nowMs ≤ b.nowMs + timeout := by
  have hfrom : (opener :: since).Pairwise fun a b => a.nowMs ≤ b.nowMs :=
    (pairwise_append.mp hsorted).2.1
  have hle : opener.nowMs ≤ b.nowMs := by
    rcases mem_cons.mp hb with rfl | hb
    · exact le_refl _
    · exact (pairwise_cons.mp hfrom).1 b hb
  omega

/-- **Reassembly is sound**: a message is put together from fragments of one source, id and count,
pushed since its slot was opened. -/
theorem complete_sound (cfg : Config) (ps : List Push) (p : Push) (m : Bytes)
    (h : (((new cfg).run ps).push p).2 = .complete m) :
    ∃ (frag : ℕ → Push) (before since : List Push) (opener : Push),
      m = ((List.range p.hdr.count.toNat).map fun i => (frag i).payload).flatten
      ∧ ps ++ [p] = before ++ opener :: since
      ∧ opener.source = p.source ∧ opener.hdr.reassemblyId = p.hdr.reassemblyId
      ∧ opener.hdr.count = p.hdr.count ∧ (∀ i < p.hdr.count.toNat, frag i ∈ opener :: since
        ∧ (frag i).source = p.source ∧ (frag i).hdr.reassemblyId = p.hdr.reassemblyId
        ∧ (frag i).hdr.count = p.hdr.count ∧ (frag i).hdr.idx.toNat = i
        ∧ (frag i).nowMs ≤ opener.nowMs + cfg.timeoutMs)
      ∧ ((ps ++ [p]).Pairwise (fun a b => a.nowMs ≤ b.nowMs) →
        ∀ i < p.hdr.count.toNat, ∀ j < p.hdr.count.toNat,
          (frag i).nowMs ≤ (frag j).nowMs + cfg.timeoutMs) := by
  rcases push_complete h with
    ⟨hone, hidx, rfl⟩ | ⟨e₀, e, scratch, scratch', total, hw, hs, hc, hcopy, hm⟩
  · have hcount : p.hdr.count.toNat = 1 := by rw [hone]; rfl
    have hzero : p.hdr.idx.toNat < 1 := hcount ▸ UInt8.lt_iff_toNat_lt.mp hidx
    refine ⟨fun _ => p, ps, [], p, ?_, rfl, rfl, rfl, rfl, ?_, ?_⟩
    · simp [hcount]
    · intro i hi
      refine ⟨mem_cons_self, rfl, rfl, rfl, ?_, Nat.le_add_right _ _⟩
      show p.hdr.idx.toNat = i
      omega
    · intro _ i _ j _
      exact Nat.le_add_right _ _
  · obtain ⟨before, opener, since, frag, J, hps, -, hstore⟩ := (accounted_run cfg ps).worksOn hw
    have hcol := hstore e hs
    rw [run_cfg] at hcol
    have hcount : e.count = p.hdr.count := by
      obtain ⟨hcount, -, buf, -, rfl⟩ := store_ok hs
      exact hcount
    have hkey : e.key = p.key := (Entry.store_key hs).trans hw.key_eq
    obtain ⟨hall, hmsg⟩ := hcol.message hc hcopy hm
    have hopen := Prod.mk.inj (hcol.opener_key.trans hkey)
    rw [hall, hcount] at hcol
    rw [hcount] at hmsg
    refine ⟨_, before, since, opener, hmsg, hps, hopen.1, hopen.2, hcol.opener_count.trans hcount, ?_, ?_⟩
    · intro i hi
      have hi := Finset.mem_range.mpr hi
      obtain ⟨hk, hcnt, hidx⟩ := hcol.fragment i hi
      obtain ⟨hmem, htime⟩ := hcol.in_time i hi
      have hfrag := Prod.mk.inj (hk.trans hkey)
      exact ⟨hmem, hfrag.1, hfrag.2, hcnt.trans hcount, hidx, htime⟩
    · intro hsorted i hi j hj
      rw [hps] at hsorted
      exact times_close hsorted (hcol.in_time i (Finset.mem_range.mpr hi)).2
        (hcol.in_time j (Finset.mem_range.mpr hj)).1

/-- A fragment of a two-fragment message of the given type, as one source pushes it. -/
def typedPush (ty : MessageType) (i : ℕ) (payload : Bytes) (nowMs : ℕ) : Push where
  source := Vector.replicate 18 0
  addrValidated := false
  hdr := fragmentHeader reference ty 7 [] 2 i payload
  payload
  nowMs

def fullPayload : Bytes := List.replicate FRAGMENT_PAYLOAD_MAX 0

/-- The type a pushed fragment was sent under, as its MAC tells. -/
def Push.verifies (p : Push) (ty : MessageType) : Bool :=
  verifyFragMac reference [] ty.toByte p.hdr.reassemblyId p.hdr.idx p.hdr.count p.payload p.hdr.fragMac

theorem typedPush_complete_sound : ∃ (frag : ℕ → Push) (before since : List Push) (opener : Push),
      fullPayload ++ [1] = ((List.range 2).map fun i => (frag i).payload).flatten
      ∧ [typedPush .transportData 0 fullPayload 0, typedPush .transportData 1 [1] 5]
        = before ++ opener :: since ∧ ∀ i < 2, frag i ∈ opener :: since ∧ (frag i).hdr.idx.toNat = i := by
  obtain ⟨frag, before, since, opener, hm, hps, -, -, -, hfrag, -⟩ :=
    complete_sound .default [typedPush .transportData 0 fullPayload 0]
      (typedPush .transportData 1 [1] 5) (fullPayload ++ [1]) (by decide +kernel)
  refine ⟨frag, before, since, opener, hm, hps, ?_⟩
  intro i hi
  obtain ⟨hmem, -, -, -, hidx, -⟩ := hfrag i hi
  exact ⟨hmem, hidx⟩

/-- Fragments of two message types complete a message together, and so do two that are far apart on
a clock that ran backwards. -/
theorem complete_mixes : ((((new .default).run [typedPush .handshakeInit 0 fullPayload 0]).push
        (typedPush .transportData 1 [1] 5)).2 = .complete (fullPayload ++ [1])
      ∧ ∀ ty, ((typedPush .handshakeInit 0 fullPayload 0).verifies ty
        && (typedPush .transportData 1 [1] 5).verifies ty) = false)
    ∧ (((new .default).run [typedPush .transportData 0 fullPayload 10000]).push
        (typedPush .transportData 1 [1] 5)).2 = .complete (fullPayload ++ [1])
      ∧ 5 + Config.default.timeoutMs < 10000 := by
  refine ⟨⟨by decide +kernel, ?_⟩, by decide +kernel, by decide⟩
  intro ty
  cases ty <;> decide +kernel

/-! ### What a rejected push leaves -/

/-- Refused before the sweep: by its header, or as an oversized lone fragment. -/
def Push.Unswept (p : Push) : Prop :=
  (MAX_FRAGMENTS < p.hdr.count.toNat ∨ p.hdr.count ≤ p.hdr.idx)
    ∨ (p.hdr.count = 1 ∧ TRANSPORT_PAYLOAD_MAX < p.payload.length)

/-- Short, although it is not the last fragment. -/
def Push.Short (p : Push) : Prop :=
  p.hdr.idx + 1 < p.hdr.count ∧ p.payload.length ≠ FRAGMENT_PAYLOAD_MAX

/-- A first fragment that there is room for and that is short. -/
structure WastesSlot (r : Reassembler) (p : Push) : Prop where
  inRange : InRange p
  short : p.Short
  unknown : position Entry.key p.key (r.expire p.nowMs).slots = none
  unloaded : p.addrValidated = false → (r.expire p.nowMs).occupied < r.cfg.loadThreshold
  hasRoom : (r.expire p.nowMs).HasRoom p.source

theorem push_unswept (h : p.Unswept) : r.push p = (r, .rejected .inconsistent) := by
  rw [push]
  rcases h with h | ⟨hone, hlen⟩
  · rw [if_pos h]
  · split
    · rfl
    · rw [completeUnfragmented, if_pos hlen]

theorem expire_eq_self {now : ℕ} :
    (r.expire now).slots = r.slots ↔ ∀ e, some e ∈ r.slots → now < e.expiresAtMs := by
  constructor
  · intro h e he
    rw [← h] at he
    exact (mem_expire he).2
  · intro h
    refine (map_congr_left fun s hs => ?_).trans (map_id _)
    cases s with
    | none => rfl
    | some e => simpa using h e hs

theorem store_fresh (hp : InRange p) :
    (∃ reason, (r.freshEntry p).store p.hdr p.payload = .error reason) ↔ p.Short := by
  have hsame : ¬ (r.freshEntry p).count ≠ p.hdr.count := not_not.mpr rfl
  have hbit : ¬ ((r.freshEntry p).received &&& (1#8 <<< p.hdr.idx.toNat) != 0) = true := by
    simp [freshEntry]
  have hi4 : p.hdr.idx.toNat < 4 :=
    lt_of_lt_of_le (UInt8.lt_iff_toNat_lt.mp hp.idx_lt) hp.count_le
  obtain ⟨buf, hwrite⟩ := (r.freshEntry p).buf.write_isSome (place_fits hi4 hp.fits)
  rw [Entry.store, if_neg hsame, if_neg hbit, hwrite]
  by_cases hshort : p.Short
  · exact iff_of_true ⟨_, if_pos hshort⟩ hshort
  · refine iff_of_false ?_ hshort
    rintro ⟨reason, hr⟩
    cases (if_neg hshort).symm.trans hr

theorem WastesSlot.push (h : WastesSlot r p) : (∃ reason, (r.push p).2 = .rejected reason)
      ∧ (r.push p).1.slots ≠ (r.expire p.nowMs).slots := by
  obtain ⟨r', i, hloc, hfree, -, hi⟩ := locate_new h.unknown h.unloaded h.hasRoom
  have hp := h.inRange
  obtain ⟨reason, hs⟩ := (store_fresh (r := r) hp).mpr h.short
  rw [push_located hp.multiple hp.count_le hp.idx_lt hp.fits hloc, fill_error hi hs]
  refine ⟨⟨reason, rfl⟩, ?_⟩
  intro heq
  rw [heq, hfree] at hi
  cases hi

theorem Collected.fill (h : Collected timeout opener since frag J e) {e₀ : Entry}
    (hi : r.slots[i]? = some (some e₀)) (hs : e₀.store p.hdr p.payload = .ok e) (reason : Reject) :
    (r.fill i p).2 ≠ .rejected reason := by
  by_cases hc : e.complete = true
  · have hcarries := h.carries
    rw [(h.carries.complete_iff h.count_le h.bound).mp hc] at hcarries
    obtain ⟨out, hcopy, hmsg⟩ := hcarries.copyOut_message h.count_le r.scratch
    rw [fill_complete hi hs hc hcopy hmsg]
    simp
  · rw [fill_buffered hi hs (by simpa using hc)]
    simp

/-- **How a push is rejected.**  Before the sweep, or after it with nothing else changed, or with the
slot of a short first fragment allocated. -/
theorem push_rejected (h : Accounted ps r) {reason : Reject} (hr : (r.push p).2 = .rejected reason) :
    p.Unswept ∨ (r.push p).1.slots = (r.expire p.nowMs).slots ∨ WastesSlot r p := by
  rcases push_cases r p with ⟨hguard, -⟩ | ⟨hone, -, hp⟩ | ⟨_, hp⟩ | ⟨hrange, r', i, hl, hp⟩
  · exact .inl (.inl hguard)
  · rw [hp, completeUnfragmented_eq] at hr
    split at hr
    · rename_i hlen
      exact .inl (.inr ⟨hone, hlen⟩)
    · cases hr
  · rw [hp]
    exact .inr (.inl rfl)
  · right
    rw [hp] at hr ⊢
    obtain ⟨e₀, hw, hi, -⟩ := worksOn_locate hrange hl
    obtain ⟨_, _, _, _, _, -, -, hstore⟩ := h.worksOn hw
    cases hs : e₀.store p.hdr p.payload with
    | ok e => exact absurd hr ((hstore e hs).fill hi hs reason)
    | error reason' =>
      rw [fill_error hi hs]
      rcases locate_cases hl with ⟨rfl, -⟩ | ⟨hpos, hfree, hload, hbudget, rfl⟩
      · exact .inl rfl
      · right
        have hlt := (List.getElem?_eq_some_iff.mp (free_spec hfree)).1
        rw [getElem?_store hlt, if_pos rfl, some.injEq, some.injEq] at hi
        rw [← hi] at hs
        exact ⟨hrange, (store_fresh hrange).mp ⟨_, hs⟩, hpos, hload, hbudget, by simp [hfree]⟩

/-- **A rejected fragment costs nothing**, unless it is a first fragment that is short. -/
theorem rejection_free_iff (cfg : Config) (ps : List Push) (p : Push) :
    (∀ reason, (((new cfg).run ps).push p).2 = .rejected reason →
      (((new cfg).run ps).push p).1.slots = (((new cfg).run ps).expire p.nowMs).slots)
    ↔ ¬ WastesSlot ((new cfg).run ps) p
      ∧ (p.Unswept → ∀ e, some e ∈ ((new cfg).run ps).slots → p.nowMs < e.expiresAtMs) := by
  constructor
  · intro h
    constructor
    · intro hw
      obtain ⟨⟨reason, hr⟩, hne⟩ := hw.push
      exact hne (h reason hr)
    · intro hu
      rw [push_unswept hu] at h
      exact expire_eq_self.mp (h _ rfl).symm
  · rintro ⟨hw, hu⟩ reason hr
    rcases push_rejected (accounted_run cfg ps) hr with hp | hp | hp
    · rw [push_unswept hp]
      exact (expire_eq_self.mpr (hu hp)).symm
    · exact hp
    · exact absurd hp hw

def shortPush : Push :=
  ⟨Vector.replicate 18 0, true, ⟨1, 0, 2, Vector.replicate 16 0⟩, List.replicate 10 1, 0⟩

/-- It is rejected, and its slot is taken for the three seconds of the timeout. -/
theorem shortPush_wastes : ((new .perSession).push shortPush).2 = .rejected .inconsistent
      ∧ (((new .perSession).push shortPush).1.expire 2999).occupied = 1
      ∧ ((new .perSession).expire shortPush.nowMs).occupied = 0 := by
  decide +kernel

end Karst.Proto
