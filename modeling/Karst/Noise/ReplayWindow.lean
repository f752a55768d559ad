import Karst.Foundations.Bits
import Karst.Foundations.SlidingWindow

/-!
# The transport replay window

`ReplayWindow` of the transport phase: a 2048-bit bitmap in thirty-two 64-bit words, bit `i`
standing for the counter `highest - i`.  A counter ahead of `highest` shifts the whole bitmap
up, word by word, and takes bit `0`; a counter behind it is looked up in place.
-/

namespace Karst.Noise

open Karst.SlidingWindow Option Vector
open List hiding Vector

def WINDOW_WORDS : ℕ := 32

def REPLAY_WINDOW : ℕ := WINDOW_WORDS * 64

structure ReplayWindow where
  highest : UInt64
  bits : Vector (BitVec 64) WINDOW_WORDS

namespace ReplayWindow

def new : ReplayWindow := ⟨0, Vector.replicate WINDOW_WORDS 0#64⟩

/-- Slide the bitmap up by `shift` places.  Slots below `words` have no source word and stay
zero; the others take their source word and the bits carried out of the word below it. -/
def shiftBy (w : ReplayWindow) (shift : UInt64) : ReplayWindow :=
  let words := shift.toNat / 64
  let bits := shift.toNat % 64
  { w with
    bits := Vector.ofFn fun i : Fin WINDOW_WORDS =>
      if i.val < words then 0
      else
        let src := i.val - words
        match w.bits[src]? with
        | none => 0
        | some v =>
          let moved := v <<< bits
          -- a whole-word shift carries nothing
          if 0 < bits then
            match (if 1 ≤ src then w.bits[src - 1]? else none) with
            | some lower => moved ||| (lower >>> (64 - bits))
            | none => moved
          else moved }

def get (w : ReplayWindow) (idx : ℕ) : Bool :=
  match w.bits[idx / 64]? with
  | some v => v &&& (1#64 <<< (idx % 64)) != 0
  | none => false

def set (w : ReplayWindow) (idx : ℕ) : ReplayWindow :=
  match w.bits[idx / 64]? with
  | some v => { w with bits := w.bits.setIfInBounds (idx / 64) (v ||| (1#64 <<< (idx % 64))) }
  | none => w

/-- Accept `counter` exactly once.  `false` for a replay or a counter that has fallen out of the
window. -/
def accept (w : ReplayWindow) (counter : UInt64) : Bool × ReplayWindow :=
  if w.highest < counter then
    let shift := counter - w.highest
    let w' :=
      if REPLAY_WINDOW ≤ shift.toNat then { w with bits := Vector.replicate WINDOW_WORDS 0#64 }
      else w.shiftBy shift
    (true, { w' with highest := counter }.set 0)
  else
    let back := (w.highest - counter).toNat
    if REPLAY_WINDOW ≤ back then (false, w)
    else if w.get back then (false, w)
    else (true, w.set back)

/-! ### The bitmap as one bit string -/

def word (w : ReplayWindow) (i : ℕ) : BitVec 64 := w.bits[i]?.getD 0

def bitAt (w : ReplayWindow) (g : ℕ) : Bool := (w.word (g / 64)).getLsbD (g % 64)

variable (w : ReplayWindow)

theorem get_eq_bitAt (g : ℕ) : w.get g = w.bitAt g := by
  unfold get bitAt word
  cases w.bits[g / 64]? with
  | none => simp
  | some v => exact Bits.and_mask_ne_zero v (Nat.mod_lt _ (by decide))

theorem bitAt_set {idx : ℕ} (hidx : idx < REPLAY_WINDOW) (g : ℕ) :
    (w.set idx).bitAt g = (w.bitAt g || decide (g = idx)) := by
  have hword : idx / 64 < WINDOW_WORDS := by
    unfold REPLAY_WINDOW WINDOW_WORDS at *
    omega
  have hsome : w.bits[idx / 64]? = some (w.bits[idx / 64]) := getElem?_eq_getElem hword
  unfold bitAt word set
  rw [hsome]
  simp only [getElem?_setIfInBounds, hword, if_true]
  by_cases hi : idx / 64 = g / 64
  · rw [if_pos hi, ← hi, hsome]
    simp only [getD_some]
    rw [Bits.getLsbD_or_mask _ _ (Nat.mod_lt _ (by decide))]
    congr 1
    rw [decide_eq_decide]
    omega
  · rw [if_neg hi]
    have hg : g ≠ idx := fun h => hi (by rw [h])
    simp [hg]

variable (shift : UInt64)

theorem word_shiftBy {i : ℕ} (hi : i < WINDOW_WORDS) : (w.shiftBy shift).word i =
      if i < shift.toNat / 64 then 0
      else (w.word (i - shift.toNat / 64) <<< (shift.toNat % 64)) |||
        (if 0 < shift.toNat % 64 ∧ 1 ≤ i - shift.toNat / 64 then
          w.word (i - shift.toNat / 64 - 1) >>> (64 - shift.toNat % 64)
        else 0) := by
  unfold word shiftBy
  simp only [getElem?_ofFn, hi, dif_pos, getD_some]
  by_cases hlow : i < shift.toNat / 64
  · simp only [if_pos hlow]
  · have hsrc : i - shift.toNat / 64 < WINDOW_WORDS := by omega
    rw [getElem?_eq_getElem hsrc]
    by_cases hb : 0 < shift.toNat % 64
    · by_cases hone : 1 ≤ i - shift.toNat / 64
      · have hprev : i - shift.toNat / 64 - 1 < WINDOW_WORDS := by omega
        simp only [hb, hone, and_self, if_true, getElem?_eq_getElem hprev, getD_some]
      · simp [hb, hone]
    · simp [hb]

/-- **The multiword shift is a shift of the bit string.** -/
theorem bitAt_shiftBy {g : ℕ} (hg : g < REPLAY_WINDOW) :
    (w.shiftBy shift).bitAt g = (decide (shift.toNat ≤ g) && w.bitAt (g - shift.toNat)) := by
  have hi : g / 64 < WINDOW_WORDS := by
    unfold REPLAY_WINDOW WINDOW_WORDS at *
    omega
  unfold bitAt
  rw [word_shiftBy w shift hi]
  generalize hs : shift.toNat = s
  by_cases hlow : g / 64 < s / 64
  · -- the slot lies wholly below the shift
    have hlt : ¬ s ≤ g := by omega
    simp [hlow, hlt]
  · simp only [if_neg hlow, BitVec.getLsbD_or, BitVec.getLsbD_shiftLeft]
    have hm : g % 64 < 64 := Nat.mod_lt _ (by decide)
    by_cases hcarry : g % 64 < s % 64
    · -- the bit comes out of the word below, if there is one
      by_cases hone : 1 ≤ g / 64 - s / 64
      · have hpos : 0 < s % 64 := by omega
        have hle : s ≤ g := by omega
        have hdiv : (g - s) / 64 = g / 64 - s / 64 - 1 := by omega
        have hmod : (g - s) % 64 = 64 - s % 64 + g % 64 := by omega
        simp [hcarry, hone, hpos, hle, hdiv, hmod, BitVec.getLsbD_ushiftRight]
      · have hlt : ¬ s ≤ g := by omega
        simp [hcarry, hone, hlt]
    · -- the bit stays in the source word; what the word below carries lands lower down
      have hle : s ≤ g := by omega
      have hdiv : (g - s) / 64 = g / 64 - s / 64 := by omega
      have hmod : (g - s) % 64 = g % 64 - s % 64 := by omega
      have hcarried (v : BitVec 64) : (v >>> (64 - s % 64)).getLsbD (g % 64) = false := by
        rw [BitVec.getLsbD_ushiftRight]
        exact BitVec.getLsbD_of_ge _ _ (by omega)
      rw [hdiv, hmod]
      by_cases hb : 0 < s % 64 ∧ 1 ≤ g / 64 - s / 64
      · rw [if_pos hb, hcarried]
        simp [hcarry, hle, hm]
      · simp [hb, hcarry, hle, hm]

/-! ### The window against the set of accepted counters -/

/-- The window `w` stands for the accepted counters `S`: `highest` is the top of `S`, and bit `g`
records whether the counter `g` places below it has been accepted. -/
structure Represents (w : ReplayWindow) (S : Finset ℕ) : Prop where
  highest_eq : w.highest.toNat = top S
  bit_iff : ∀ g, g < REPLAY_WINDOW → (w.bitAt g = true ↔ g ≤ top S ∧ top S - g ∈ S)

theorem bitAt_clear (h : UInt64) (g : ℕ) : bitAt ⟨h, Vector.replicate WINDOW_WORDS 0#64⟩ g = false := by
  unfold bitAt word
  rw [Vector.getElem?_replicate]
  split <;> simp

theorem represents_new : Represents new ∅ := by
  refine ⟨rfl, fun g _ => ?_⟩
  simp [new, bitAt_clear]

@[simp] theorem bitAt_withHighest (h : UInt64) (g : ℕ) : bitAt { w with highest := h } g = w.bitAt g := rfl

@[simp] theorem set_highest (idx : ℕ) : (w.set idx).highest = w.highest := by
  unfold set
  split <;> rfl

/-- The bitmap a counter ahead of the window slides to, before its own bit is set. -/
def slide (w : ReplayWindow) (shift : UInt64) : ReplayWindow :=
  if REPLAY_WINDOW ≤ shift.toNat then { w with bits := Vector.replicate WINDOW_WORDS 0#64 }
  else w.shiftBy shift

theorem bitAt_slide {g : ℕ} (hg : g < REPLAY_WINDOW) :
    (w.slide shift).bitAt g = (decide (shift.toNat ≤ g) && w.bitAt (g - shift.toNat)) := by
  unfold slide
  split
  · have hlt : ¬ shift.toNat ≤ g := by omega
    simp [bitAt_clear, hlt]
  · exact bitAt_shiftBy w shift hg

theorem accept_ahead {w : ReplayWindow} {c : UInt64} (h : w.highest < c) :
    w.accept c = (true, ({ w.slide (c - w.highest) with highest := c } : ReplayWindow).set 0) := by
  unfold accept slide
  simp only [h, if_true]

theorem accept_highest (c : UInt64) : (w.accept c).2.highest = w.highest ∨ (w.accept c).2.highest = c := by
  by_cases h : w.highest < c
  · right
    rw [accept_ahead h, set_highest]
  · left
    unfold accept
    simp only [h, if_false]
    split
    · rfl
    · split
      · rfl
      · exact set_highest ..

variable {w} {S : Finset ℕ} {c : UInt64}

theorem Represents.accept_ahead (hr : Represents w S)
    (h : w.highest < c) : Represents (w.accept c).2 (insert c.toNat S) := by
  have hlt : top S < c.toNat := by
    rw [← hr.highest_eq]
    exact UInt64.lt_iff_toNat_lt.mp h
  have hshift : (c - w.highest).toNat = c.toNat - top S := by
    rw [UInt64.toNat_sub_of_le _ _ (UInt64.le_of_lt h), hr.highest_eq]
  have htop : top (insert c.toNat S) = c.toNat := by
    rw [top_insert]
    omega
  rw [ReplayWindow.accept_ahead h]
  refine ⟨by simp [htop], fun g hg => ?_⟩
  rw [bitAt_set _ (by decide), bitAt_withHighest, bitAt_slide _ _ hg, htop, hshift]
  by_cases hz : g = 0
  · simp [hz]
  · by_cases hle : c.toNat - top S ≤ g
    · have hbit := hr.bit_iff (g - (c.toNat - top S)) (by omega)
      simp only [hz, hle, decide_true, Bool.true_and, decide_false, Bool.or_false, hbit, Finset.mem_insert]
      constructor
      · rintro ⟨h1, h2⟩
        have he : top S - (g - (c.toNat - top S)) = c.toNat - g := by omega
        exact ⟨by omega, .inr (he ▸ h2)⟩
      · rintro ⟨h1, h2 | h2⟩
        · omega
        · have he : top S - (g - (c.toNat - top S)) = c.toNat - g := by omega
          exact ⟨by omega, he.symm ▸ h2⟩
    · -- between the old top and the new one nothing has been accepted
      simp only [hz, hle, decide_false, Bool.false_and, Bool.or_false, Finset.mem_insert,
        Bool.false_eq_true, false_iff, not_and, not_or]
      intro h1
      refine ⟨by omega, fun hmem => ?_⟩
      have := le_top hmem
      omega

theorem Represents.behind (hr : Represents w S) (h : ¬ w.highest < c) :
    c.toNat ≤ top S ∧ (w.highest - c).toNat = top S - c.toNat := by
  have hle := UInt64.not_lt.mp h
  rw [← hr.highest_eq]
  exact ⟨UInt64.le_iff_toNat_le.mp hle, UInt64.toNat_sub_of_le _ _ hle⟩

theorem Represents.set_behind (hr : Represents w S)
    (h : ¬ w.highest < c) (hback : (w.highest - c).toNat < REPLAY_WINDOW) :
    Represents (w.set (w.highest - c).toNat) (insert c.toNat S) := by
  obtain ⟨hle, hb⟩ := hr.behind h
  have htop : top (insert c.toNat S) = top S := by
    rw [top_insert]
    omega
  refine ⟨by rw [set_highest, htop, hr.highest_eq], fun g hg => ?_⟩
  rw [bitAt_set _ hback, htop, hb, Bool.or_eq_true, hr.bit_iff g hg, decide_eq_true_eq, Finset.mem_insert]
  constructor
  · rintro (⟨h1, h2⟩ | h1)
    · exact ⟨h1, .inr h2⟩
    · exact ⟨by omega, .inl (by omega)⟩
  · rintro ⟨h1, h2 | h2⟩
    · exact .inr (by omega)
    · exact .inl ⟨h1, h2⟩

/-- **One call is one step of the abstract window.** -/
theorem Represents.accept (hr : Represents w S) (c : UInt64) :
    ((w.accept c).1 = true ↔ Admits REPLAY_WINDOW S c.toNat) ∧
      Represents (w.accept c).2 (advance REPLAY_WINDOW S c.toNat) := by
  by_cases h : w.highest < c
  · have hadm : Admits REPLAY_WINDOW S c.toNat := by
      apply admits_of_top_lt
      rw [← hr.highest_eq]
      exact UInt64.lt_iff_toNat_lt.mp h
    refine ⟨by simp [ReplayWindow.accept_ahead h, hadm], ?_⟩
    rw [advance, if_pos hadm]
    exact hr.accept_ahead h
  · obtain ⟨hle, hb⟩ := hr.behind h
    have hin := @admits_iff_top REPLAY_WINDOW (by decide) S c.toNat
    unfold ReplayWindow.accept
    simp only [h, if_false]
    by_cases hold : REPLAY_WINDOW ≤ (w.highest - c).toNat
    · -- too old
      have hno : ¬ Admits REPLAY_WINDOW S c.toNat := by
        rw [hin]
        rintro ⟨-, h1 | h1⟩ <;> omega
      rw [advance_of_not hno]
      simp [hold, hno, hr]
    · have hseen : w.get (w.highest - c).toNat = true ↔ c.toNat ∈ S := by
        rw [get_eq_bitAt, hr.bit_iff _ (by omega), hb]
        have he : top S - (top S - c.toNat) = c.toNat := by omega
        rw [he]
        exact ⟨fun hx => hx.2, fun hx => ⟨by omega, hx⟩⟩
      by_cases hget : w.get (w.highest - c).toNat = true
      · -- already seen
        have hno : ¬ Admits REPLAY_WINDOW S c.toNat := fun hx => hx.1 (hseen.mp hget)
        rw [advance_of_not hno]
        simp [hold, hget, hno, hr]
      · have hyes : Admits REPLAY_WINDOW S c.toNat :=
          hin.mpr ⟨fun hx => hget (hseen.mpr hx), .inr (by omega)⟩
        rw [advance_of_admits hyes]
        refine ⟨by simp [hold, hget, hyes], ?_⟩
        simpa [hold, hget] using hr.set_behind h (by omega)

theorem new_accept (c : UInt64) : (new.accept c).1 = true :=
  (represents_new.accept c).1.mpr ⟨Finset.notMem_empty _, .inl rfl⟩

/-! ### Whole sequences of calls -/

/-- One call in a run: the window moves on, and the counter is recorded if it was accepted. -/
def offer (r : ReplayWindow × List UInt64) (c : UInt64) : ReplayWindow × List UInt64 :=
  ((r.1.accept c).2, if (r.1.accept c).1 then r.2 ++ [c] else r.2)

/-- The window after a sequence of calls on a fresh one, with the counters it accepted. -/
def acceptRun (cs : List UInt64) : ReplayWindow × List UInt64 := cs.foldl offer (new, [])

theorem acceptRun_append (cs : List UInt64) (c : UInt64) :
    acceptRun (cs ++ [c]) = offer (acceptRun cs) c := by
  simp [acceptRun]

/-- The run invariant: the window stands for the accepted counters, and none is listed twice. -/
structure RunInvariant (r : ReplayWindow × List UInt64) : Prop where
  represents : Represents r.1 (r.2.map UInt64.toNat).toFinset
  nodup : r.2.Nodup

theorem mem_map_toNat {l : List UInt64} {c : UInt64} : c.toNat ∈ (l.map UInt64.toNat).toFinset ↔ c ∈ l := by
  simp [UInt64.toNat_inj]

theorem RunInvariant.offer {r : ReplayWindow × List UInt64} (h : RunInvariant r) (c : UInt64) :
    RunInvariant (offer r c) := by
  obtain ⟨hok, hrep⟩ := h.represents.accept c
  unfold ReplayWindow.offer
  by_cases hadm : Admits REPLAY_WINDOW (r.2.map UInt64.toNat).toFinset c.toNat
  · rw [if_pos (hok.mpr hadm)]
    rw [advance_of_admits hadm] at hrep
    refine ⟨?_, ?_⟩
    · have hset : ((r.2 ++ [c]).map UInt64.toNat).toFinset
          = insert c.toNat (r.2.map UInt64.toNat).toFinset := by
        ext x
        simp
      simpa only [hset] using hrep
    · have hnot : c ∉ r.2 := fun hc => hadm.1 (mem_map_toNat.mpr hc)
      exact Nodup.append h.nodup (nodup_singleton c) (by simpa using hnot)
  · rw [if_neg (fun hx => hadm (hok.mp hx))]
    rw [advance_of_not hadm] at hrep
    exact ⟨hrep, h.nodup⟩

theorem runInvariant_acceptRun (cs : List UInt64) : RunInvariant (acceptRun cs) := by
  induction cs using reverseRecOn with
  | nil => exact ⟨represents_new, nodup_nil⟩
  | append_singleton cs c ih =>
    rw [acceptRun_append]
    exact ih.offer c

theorem admits_iff_highest (l : List UInt64) (c : UInt64) :
    Admits REPLAY_WINDOW (l.map UInt64.toNat).toFinset c.toNat ↔
      c ∉ l ∧ (l = [] ∨ ∃ h ∈ l, (∀ a ∈ l, a ≤ h) ∧ (h < c ∨ h.toNat - c.toNat < REPLAY_WINDOW)) := by
  unfold Admits
  rw [mem_map_toNat]
  refine and_congr_right fun _ => ?_
  rcases l.eq_nil_or_concat with rfl | hne
  · simp
  · have hl : l ≠ [] := by
      obtain ⟨l', b, rfl⟩ := hne
      simp
    have hemp : (l.map UInt64.toNat).toFinset ≠ ∅ := by simpa using hl
    have htop := top_mem (Finset.nonempty_iff_ne_empty.mpr hemp)
    obtain ⟨h, hmem, heq⟩ : ∃ h ∈ l, h.toNat = top (l.map UInt64.toNat).toFinset := by
      simpa using htop
    have hmax a (ha : a ∈ l) : a ≤ h := by
      rw [UInt64.le_iff_toNat_le, heq]
      exact le_top (mem_map_toNat.mpr ha)
    simp only [hl, hemp, false_or, ← heq, ← UInt64.lt_iff_toNat_lt]
    constructor
    · intro hx
      exact ⟨h, hmem, hmax, hx⟩
    · rintro ⟨h', hmem', hmax', hx⟩
      have he : h' = h := UInt64.le_antisymm (hmax h' hmem') (hmax' h hmem)
      exact he ▸ hx

/-- **The replay window is exact**: it accepts what is new and not too far below the highest
counter, and nothing twice. -/
theorem accept_exact (pre : List UInt64) (c : UInt64) : (((acceptRun pre).1.accept c).1 = true ↔
      c ∉ (acceptRun pre).2 ∧ ((acceptRun pre).2 = [] ∨
          ∃ h ∈ (acceptRun pre).2, (∀ a ∈ (acceptRun pre).2, a ≤ h) ∧ (h < c ∨ h.toNat - c.toNat < 2048))) ∧
      (acceptRun pre).2.Nodup := by
  have hinv := runInvariant_acceptRun pre
  refine ⟨?_, hinv.nodup⟩
  rw [(hinv.represents.accept c).1]
  exact admits_iff_highest _ c

end ReplayWindow

end Karst.Noise
