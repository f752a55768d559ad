import Karst.Proto.Reassembly

/-!
# What an entry holds

An entry is a received mask, a table of lengths and one buffer cut into equal places.
`Carries pay J e` says that together they spell the payloads `pay i` of the indices `i ∈ J`, and
nothing else.
-/

namespace Karst.Proto

open List hiding Vector

/-- The entry holds the payload `pay i` for each `i ∈ J`, and no other. -/
structure Carries (pay : ℕ → Bytes) (J : Finset ℕ) (e : Entry) : Prop where
  received_eq : ∀ i, e.received.getLsbD i = decide (i ∈ J)
  fits : ∀ i ∈ J, (pay i).length ≤ FRAGMENT_PAYLOAD_MAX
  len_eq : ∀ i ∈ J, (e.lens[i]?.getD 0).toNat = (pay i).length
  bytes_eq : ∀ i ∈ J, (e.buf.bytes.drop (i * FRAGMENT_PAYLOAD_MAX)).take (pay i).length = pay i

variable {pay : ℕ → Bytes} {J : Finset ℕ} {e : Entry} {i : ℕ}

theorem carries_fresh (r : Reassembler) (p : Push) (pay : ℕ → Bytes) : Carries pay ∅ (r.freshEntry p) where
  received_eq i := by simp [Reassembler.freshEntry]
  fits i hi := absurd hi (Finset.notMem_empty i)
  len_eq i hi := absurd hi (Finset.notMem_empty i)
  bytes_eq i hi := absurd hi (Finset.notMem_empty i)

theorem Carries.congr {pay' : ℕ → Bytes} (h : Carries pay J e) (heq : ∀ i ∈ J, pay' i = pay i) :
    Carries pay' J e where
  received_eq := h.received_eq
  fits i hi := by rw [heq i hi]; exact h.fits i hi
  len_eq i hi := by rw [heq i hi]; exact h.len_eq i hi
  bytes_eq i hi := by rw [heq i hi]; exact h.bytes_eq i hi

theorem places_disjoint {j len len' : ℕ} (hne : j ≠ i) (hlen : len ≤ FRAGMENT_PAYLOAD_MAX)
    (hlen' : len' ≤ FRAGMENT_PAYLOAD_MAX) : j * FRAGMENT_PAYLOAD_MAX + len ≤ i * FRAGMENT_PAYLOAD_MAX
      ∨ i * FRAGMENT_PAYLOAD_MAX + len' ≤ j * FRAGMENT_PAYLOAD_MAX := by
  rcases Nat.lt_or_gt_of_ne hne with hlt | hgt
  · left
    have := Nat.mul_le_mul_right FRAGMENT_PAYLOAD_MAX hlt
    rw [Nat.succ_mul] at this
    omega
  · right
    have := Nat.mul_le_mul_right FRAGMENT_PAYLOAD_MAX hgt
    rw [Nat.succ_mul] at this
    omega

theorem place_fits {len : ℕ} (hi : i < 4) (hlen : len ≤ FRAGMENT_PAYLOAD_MAX) :
    i * FRAGMENT_PAYLOAD_MAX + len ≤ MAX_MESSAGE := by
  have hmul := Nat.mul_le_mul_right FRAGMENT_PAYLOAD_MAX (show i + 1 ≤ 4 from hi)
  have hmax : MAX_MESSAGE = 4 * FRAGMENT_PAYLOAD_MAX := rfl
  rw [Nat.succ_mul] at hmul
  omega

theorem record_lens {payload : Bytes} {buf : Buffer MAX_MESSAGE} (hi : i < 4)
    (hlen : payload.length ≤ FRAGMENT_PAYLOAD_MAX) :
    ((e.record i payload buf).lens[i]?.getD 0).toNat = payload.length := by
  have hsmall : payload.length < 2 ^ 16 := lt_of_le_of_lt hlen (by decide)
  have hset : (e.lens.setIfInBounds i (UInt16.ofNat payload.length))[i]?
      = some (UInt16.ofNat payload.length) := by
    rw [Vector.getElem?_setIfInBounds_self_of_lt]
    exact hi
  simp only [Entry.record, if_pos hsmall, hset, Option.getD_some, UInt16.toNat_ofNat']
  exact Nat.mod_eq_of_lt hsmall

variable (h : Carries pay J e)
include h

/-- **Copying a fragment in.**  It is where the copy-out loop will look for it, and the others are
where they were. -/
theorem Carries.record (hi : i < 4) (hlen : (pay i).length ≤ FRAGMENT_PAYLOAD_MAX) {buf : Buffer MAX_MESSAGE}
    (hwrite : e.buf.write (i * FRAGMENT_PAYLOAD_MAX) (pay i) = some buf) :
    Carries pay (insert i J) (e.record i (pay i) buf) := by
  obtain ⟨hfits, hbytes⟩ := Buffer.write_spec hwrite
  have hold j (hj : j ∈ insert i J) (hne : j ≠ i) : j ∈ J := by
    exact (Finset.mem_insert.mp hj).resolve_left hne
  refine ⟨?_, ?_, ?_, ?_⟩
  · intro j
    rw [Entry.record, Bits.getLsbD_or_mask _ _ (by omega), h.received_eq j]
    by_cases hj : j = i <;> simp [hj]
  · intro j hj
    by_cases hji : j = i
    · rwa [hji]
    · exact h.fits j (hold j hj hji)
  · intro j hj
    by_cases hji : j = i
    · rw [hji]
      exact record_lens hi hlen
    · have hsame : (e.record i (pay i) buf).lens[j]? = e.lens[j]? := by
        rw [Entry.record, Vector.getElem?_setIfInBounds_ne (Ne.symm hji)]
      rw [hsame]
      exact h.len_eq j (hold j hj hji)
  · intro j hj
    show (buf.bytes.drop _).take _ = _
    rw [hbytes]
    by_cases hji : j = i
    · rw [hji]
      exact slice_overwrite hfits
    · rw [slice_overwrite_disjoint hfits (places_disjoint hji (h.fits j (hold j hj hji)) hlen)]
      exact h.bytes_eq j (hold j hj hji)

theorem Carries.complete_iff (hc : e.count.toNat ≤ 4)
    (hJ : ∀ i ∈ J, i < e.count.toNat) : e.complete = true ↔ J = Finset.range e.count.toNat := by
  have hsmall : ¬ (8 : UInt8) ≤ e.count := by
    rw [UInt8.le_iff_toNat_le]
    simp only [UInt8.reduceToNat]
    omega
  rw [Entry.complete, if_neg hsmall, beq_iff_eq, Bits.eq_low_ones_iff (by omega)]
  · simp only [h.received_eq, decide_eq_true_eq]
    constructor
    · intro hall
      ext i
      rw [Finset.mem_range]
      exact ⟨hJ i, hall i⟩
    · rintro rfl i hi
      exact Finset.mem_range.mpr hi
  · intro i hi
    rw [h.received_eq i, decide_eq_true_eq] at hi
    exact hJ i hi

/-- **The copy-out loop.**  Over any fragments the entry holds, the scratch buffer grows by their
payloads in order. -/
theorem Carries.copyOut_loop (hJ : ∀ i ∈ J, i < 4) (is : List ℕ)
    (his : ∀ i ∈ is, i ∈ J) (scratch : Buffer MAX_MESSAGE) (total : ℕ)
    (hroom : total + ((is.map pay).flatten).length ≤ MAX_MESSAGE) : ∃ scratch', e.copyOut is scratch total
        = (scratch', some (total + ((is.map pay).flatten).length))
      ∧ scratch'.bytes.take (total + ((is.map pay).flatten).length)
        = scratch.bytes.take total ++ (is.map pay).flatten := by
  induction is generalizing scratch total with
  | nil => exact ⟨scratch, rfl, by simp⟩
  | cons i is ih =>
    have hi : i ∈ J := his i (by simp)
    simp only [map_cons, flatten_cons, length_append, ← Nat.add_assoc] at hroom ⊢
    have hsrc : slice e.buf.bytes (i * FRAGMENT_PAYLOAD_MAX) (e.lens[i]?.getD 0).toNat = some (pay i) := by
      rw [slice, h.len_eq i hi, if_pos, h.bytes_eq i hi]
      rw [e.buf.size]
      exact place_fits (hJ i hi) (h.fits i hi)
    obtain ⟨next, hnext⟩ := scratch.write_isSome (show total + (pay i).length ≤ MAX_MESSAGE by omega)
    obtain ⟨hfits, hbytes⟩ := Buffer.write_spec hnext
    obtain ⟨scratch', hcopy, htake⟩ := ih (fun j hj => his j (by simp [hj])) next
      (total + (pay i).length) hroom
    refine ⟨scratch', ?_, ?_⟩
    · rw [Entry.copyOut]
      simp only [hsrc, hnext]
      rw [h.len_eq i hi]
      exact hcopy
    · rw [htake, hbytes, take_overwrite hfits, append_assoc]

theorem Carries.flatten_length_le (is : List ℕ) (his : ∀ i ∈ is, i ∈ J) :
    ((is.map pay).flatten).length ≤ is.length * FRAGMENT_PAYLOAD_MAX := by
  induction is with
  | nil => simp
  | cons i is ih =>
    have hi := h.fits i (his i (by simp))
    have hrest := ih fun j hj => his j (by simp [hj])
    rw [map_cons, flatten_cons, length_append, length_cons, Nat.succ_mul]
    omega

omit h

theorem Carries.copyOut_message {count : ℕ} (h : Carries pay (Finset.range count) e)
    (hc : count ≤ 4) (scratch : Buffer MAX_MESSAGE) : ∃ scratch', e.copyOut (range count) scratch 0
        = (scratch', some (((range count).map pay).flatten).length)
      ∧ slice scratch'.bytes 0 (((range count).map pay).flatten).length
        = some ((range count).map pay).flatten := by
  have his i (hi : i ∈ range count) : i ∈ Finset.range count := by
    exact Finset.mem_range.mpr (mem_range.mp hi)
  have hlen : (((range count).map pay).flatten).length ≤ MAX_MESSAGE := by
    have hle := h.flatten_length_le (range count) his
    rw [length_range] at hle
    exact hle.trans (Nat.mul_le_mul_right FRAGMENT_PAYLOAD_MAX hc)
  obtain ⟨scratch', hcopy, htake⟩ := h.copyOut_loop
    (fun i hi => lt_of_lt_of_le (Finset.mem_range.mp hi) hc) (range count) his scratch 0
    (by rwa [Nat.zero_add])
  rw [Nat.zero_add] at hcopy htake
  rw [take_zero, nil_append] at htake
  refine ⟨scratch', hcopy, ?_⟩
  rw [slice, Nat.zero_add, if_pos (hlen.trans_eq scratch'.size.symm), drop_zero, htake]

end Karst.Proto
