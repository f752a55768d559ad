import Mathlib

/-!
# Slot tables

A fixed row of slots, each empty or holding one entry; entries carry a key.  Such a table is
searched from the front, filled at the first free slot, and swept.  As long as no two slots hold
the same key (`Distinct`), the position of an entry does not matter: the table is a finite map
from keys to entries (`entry`), and every operation is a map operation.
The second half counts the entries of a kind.
-/

namespace Karst.SlotTable

open Option
open List hiding Vector

variable {α κ : Type*} [DecidableEq κ] (key : α → κ)

def holds (k : κ) (s : Option α) : Bool := s.any fun a => decide (key a = k)

def position (k : κ) (t : List (Option α)) : Option ℕ := t.findIdx? (holds key k)

def free (t : List (Option α)) : Option ℕ := t.findIdx? Option.isNone

def entry (k : κ) (t : List (Option α)) : Option α := (position key k t).bind fun i => t[i]?.join

def evict (stale : α → Bool) (t : List (Option α)) : List (Option α) :=
  t.map fun s => s.filter fun a => !stale a

def Distinct (t : List (Option α)) : Prop :=
  ∀ (i j : ℕ) (a b : α), t[i]? = some (some a) → t[j]? = some (some b) → key a = key b → i = j

variable {key} {t : List (Option α)} {k : κ} {i : ℕ} {a : α}

@[simp] theorem holds_iff {s : Option α} : holds key k s = true ↔ ∃ a, s = some a ∧ key a = k := by
  cases s <;> simp [holds]

theorem position_spec (h : position key k t = some i) : ∃ a, t[i]? = some (some a) ∧ key a = k := by
  obtain ⟨hlt, hholds, -⟩ := findIdx?_eq_some_iff_getElem.mp h
  obtain ⟨a, ha, hk⟩ := holds_iff.mp hholds
  exact ⟨a, by rw [getElem?_eq_getElem hlt, ha], hk⟩

theorem position_eq_none :
    position key k t = none ↔ ∀ (i : ℕ) (a : α), t[i]? = some (some a) → key a ≠ k := by
  rw [position, findIdx?_eq_none_iff]
  constructor
  · intro h i a hi hk
    have := h (some a) (mem_of_getElem? hi)
    simp [holds, hk] at this
  · intro h s hs
    obtain ⟨i, hi⟩ := getElem?_of_mem hs
    cases s with
    | none => rfl
    | some a => simpa [holds] using h i a hi

theorem position_eq_some (hd : Distinct key t) (hi : t[i]? = some (some a)) (hk : key a = k) :
    position key k t = some i := by
  cases h : position key k t with
  | none => exact absurd hk (position_eq_none.mp h i a hi)
  | some j =>
    obtain ⟨b, hj, hb⟩ := position_spec h
    rw [hd j i b a hj hi (hb.trans hk.symm)]

theorem free_spec (h : free t = some i) : t[i]? = some none := by
  obtain ⟨hlt, hnone, -⟩ := findIdx?_eq_some_iff_getElem.mp h
  rw [getElem?_eq_getElem hlt, isNone_iff_eq_none.mp hnone]

theorem entry_eq_some (hd : Distinct key t) :
    entry key k t = some a ↔ key a = k ∧ ∃ i : ℕ, t[i]? = some (some a) := by
  constructor
  · intro h
    obtain ⟨i, hi, ha⟩ := bind_eq_some_iff.mp h
    obtain ⟨b, hb, hk⟩ := position_spec hi
    rw [hb, join_some] at ha
    obtain rfl := some.inj ha
    exact ⟨hk, i, hb⟩
  · rintro ⟨hk, i, hi⟩
    rw [entry, position_eq_some hd hi hk, bind_some, hi, join_some]

theorem entry_eq_none : entry key k t = none ↔ ∀ (i : ℕ) (a : α), t[i]? = some (some a) → key a ≠ k := by
  rw [← position_eq_none]
  constructor
  · intro h
    cases hp : position key k t with
    | none => rfl
    | some i =>
      obtain ⟨a, hi, -⟩ := position_spec hp
      rw [entry, hp, bind_some, hi, join_some] at h
      exact absurd h (by simp)
  · intro h
    rw [entry, h, bind_none]

theorem entry_congr {t' : List (Option α)} (hd : Distinct key t) (hd' : Distinct key t')
    (h : ∀ a, key a = k → ((∃ i : ℕ, t[i]? = some (some a)) ↔ ∃ i : ℕ, t'[i]? = some (some a))) :
    entry key k t = entry key k t' := by
  apply ext
  intro a
  rw [entry_eq_some hd, entry_eq_some hd']
  exact and_congr_right fun hk => h a hk

/-! ### Writing a slot -/

theorem getElem?_store (hi : i < t.length) (s : Option α) (j : ℕ) :
    (t.set i s)[j]? = if i = j then some s else t[j]? := by
  rw [getElem?_set]
  by_cases h : i = j
  · rw [if_pos h, if_pos h, if_pos hi]
  · rw [if_neg h, if_neg h]

omit [DecidableEq κ] in
theorem Distinct.store (hd : Distinct key t) (hi : i < t.length)
    (honly : ∀ (j : ℕ) (b : α), t[j]? = some (some b) → key b = key a → j = i) :
    Distinct key (t.set i (some a)) := by
  intro j j' b b' hj hj' hk
  rw [getElem?_store hi] at hj hj'
  by_cases h : i = j <;> by_cases h' : i = j'
  · rw [← h, ← h']
  · rw [if_pos h, some.injEq, some.injEq] at hj
    rw [if_neg h'] at hj'
    subst hj
    exact absurd (honly j' b' hj' hk.symm).symm h'
  · rw [if_neg h] at hj
    rw [if_pos h', some.injEq, some.injEq] at hj'
    subst hj'
    exact absurd (honly j b hj hk).symm h
  · rw [if_neg h] at hj
    rw [if_neg h'] at hj'
    exact hd j j' b b' hj hj' hk

theorem entry_store_self (hd : Distinct key t) (hi : i < t.length)
    (honly : ∀ (j : ℕ) (b : α), t[j]? = some (some b) → key b = key a → j = i) :
    entry key (key a) (t.set i (some a)) = some a :=
  (entry_eq_some (hd.store hi honly)).mpr ⟨rfl, i, by rw [getElem?_store hi, if_pos rfl]⟩

omit [DecidableEq κ] in
theorem Distinct.release (hd : Distinct key t) (i : ℕ) : Distinct key (t.set i none) := by
  have hkeep : ∀ (j : ℕ) (b : α), (t.set i none)[j]? = some (some b) → t[j]? = some (some b) := by
    intro j b hj
    rw [getElem?_set] at hj
    by_cases h : i = j
    · split at hj <;> simp at hj
    · rwa [if_neg h] at hj
  intro j j' b b' hj hj' hk
  exact hd j j' b b' (hkeep j b hj) (hkeep j' b' hj') hk

/-! ### Sweeping -/

variable {stale : α → Bool}

theorem getElem?_evict : (evict stale t)[i]? = some (some a) ↔ t[i]? = some (some a) ∧ stale a = false := by
  rw [evict, getElem?_map, map_eq_some_iff]
  constructor
  · rintro ⟨s, hs, hf⟩
    rw [filter_eq_some_iff] at hf
    exact ⟨by rw [hs, hf.1], by simpa using hf.2⟩
  · rintro ⟨hi, hs⟩
    exact ⟨some a, hi, by simp [hs]⟩

omit [DecidableEq κ] in
theorem Distinct.evict (hd : Distinct key t) : Distinct key (evict stale t) := by
  intro i j a b hi hj hk
  exact hd i j a b (getElem?_evict.mp hi).1 (getElem?_evict.mp hj).1 hk

theorem entry_evict (hd : Distinct key t) :
    entry key k (SlotTable.evict stale t) = (entry key k t).filter fun a => !stale a := by
  apply ext
  intro a
  rw [entry_eq_some hd.evict, filter_eq_some_iff, entry_eq_some hd]
  simp only [getElem?_evict, Bool.not_eq_eq_eq_not, Bool.not_true]
  constructor
  · rintro ⟨hk, i, hi, hs⟩
    exact ⟨⟨hk, i, hi⟩, hs⟩
  · rintro ⟨⟨hk, i, hi⟩, hs⟩
    exact ⟨hk, i, hi, hs⟩

/-! ### Operations that touch one key -/

/-- Going from `t` to `t'` keeps keys distinct and leaves every key but `k` alone. -/
structure Frame (key : α → κ) (k : κ) (t t' : List (Option α)) : Prop where
  distinct : Distinct key t → Distinct key t'
  entry_other : Distinct key t → ∀ k', k ≠ k' → entry key k' t' = entry key k' t

theorem Frame.refl (key : α → κ) (k : κ) (t : List (Option α)) : Frame key k t t :=
  ⟨fun h => h, fun _ _ _ => rfl⟩

theorem Frame.trans {t' t'' : List (Option α)} (h : Frame key k t t') (h' : Frame key k t' t'') :
    Frame key k t t'' :=
  ⟨fun hd => h'.distinct (h.distinct hd), fun hd k' hk =>
    (h'.entry_other (h.distinct hd) k' hk).trans (h.entry_other hd k' hk)⟩

/-- A slot of the key `k` that stays one, is filled or is cleared. -/
theorem frame_set {s₀ s : Option α} (hi : t[i]? = some s₀)
    (hset : Distinct key t → Distinct key (t.set i s)) (hold : ∀ b ∈ s₀, key b = k)
    (hnew : ∀ b ∈ s, key b = k) : Frame key k t (t.set i s) := by
  have hlt : i < t.length := (List.getElem?_eq_some_iff.mp hi).1
  refine ⟨hset, fun hd k' hne => entry_congr (hset hd) hd fun b hb => ?_⟩
  constructor
  · rintro ⟨j, hj⟩
    rw [getElem?_store hlt] at hj
    by_cases h : i = j
    · rw [if_pos h, some.injEq] at hj
      exact absurd ((hnew b hj).symm.trans hb) hne
    · rw [if_neg h] at hj
      exact ⟨j, hj⟩
  · rintro ⟨j, hj⟩
    refine ⟨j, ?_⟩
    rw [getElem?_store hlt, if_neg ?_]
    · exact hj
    · rintro rfl
      rw [hi, some.injEq] at hj
      exact hne ((hold b hj).symm.trans hb)

theorem frame_insert (hi : t[i]? = some none) (hnew : position key k t = none) (hk : key a = k) :
    Frame key k t (t.set i (some a)) := by
  have hlt : i < t.length := (List.getElem?_eq_some_iff.mp hi).1
  refine frame_set hi (fun hd => hd.store hlt ?_) nofun (by simpa using hk)
  intro j b hj hb
  exact absurd (hb.trans hk) (position_eq_none.mp hnew j b hj)

theorem frame_update {b : α} (hi : t[i]? = some (some a)) (hk : key a = k) (hb : key b = k) :
    Frame key k t (t.set i (some b)) := by
  have hlt : i < t.length := (List.getElem?_eq_some_iff.mp hi).1
  exact frame_set hi (fun hd => hd.store hlt fun j c hj hc =>
    hd j i c a hj hi (hc.trans (hb.trans hk.symm)))
    (by simpa using hk) (by simpa using hb)

theorem frame_release (hi : t[i]? = some (some a)) (hk : key a = k) : Frame key k t (t.set i none) :=
  frame_set hi (fun hd => hd.release i) (by simpa using hk) nofun

/-! ### Counting entries -/

section

variable {q : α → Bool}

def tally (q : α → Bool) (t : List (Option α)) : ℕ := t.countP fun s => s.any q

theorem tally_le_length (q : α → Bool) (t : List (Option α)) : tally q t ≤ t.length :=
  countP_le_length

theorem tally_set {s₀ s : Option α} (hi : t[i]? = some s₀) :
    tally q (t.set i s) = tally q t - (if s₀.any q then 1 else 0) + (if s.any q then 1 else 0) := by
  obtain ⟨hlt, hget⟩ := List.getElem?_eq_some_iff.mp hi
  rw [tally, countP_set hlt, hget]
  rfl

theorem tally_insert (hi : t[i]? = some none) :
    tally q (t.set i (some a)) = tally q t + if q a then 1 else 0 := by
  rw [tally_set hi]
  rfl

theorem tally_update {b : α} (hi : t[i]? = some (some a)) (hq : q b = q a) :
    tally q (t.set i (some b)) = tally q t := by
  have hpos : q a = true → 0 < tally q t := by
    intro ha
    exact countP_pos_iff.mpr ⟨some a, mem_of_getElem? hi, ha⟩
  rw [tally_set hi]
  simp only [any_some, hq]
  split
  · rename_i ha
    have := hpos ha
    omega
  · omega

theorem tally_release_le (i : ℕ) : tally q (t.set i none) ≤ tally q t := by
  by_cases hlt : i < t.length
  · rw [tally_set (getElem?_eq_getElem hlt)]
    simp only [any_none, Bool.false_eq_true, if_false]
    omega
  · rw [set_eq_of_length_le (by omega)]

theorem tally_evict_le : tally q (evict stale t) ≤ tally q t := by
  rw [tally, evict, countP_map]
  apply countP_mono_left
  intro s _ hs
  cases s with
  | none => exact hs
  | some a =>
    rw [Function.comp_apply, Option.any_filter, Option.any_some, Bool.and_eq_true] at hs
    exact hs.2

end

end Karst.SlotTable
