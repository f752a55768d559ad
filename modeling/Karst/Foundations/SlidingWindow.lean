import Mathlib

/-!
# Sliding admission windows

A sliding window admits each number once, and only while it lies fewer than `width` places
behind the highest number admitted so far.  This file states that discipline over finite sets
of naturals, with no bitmap and no machine words.

The empty window needs no case of its own: with nothing admitted `top` is `0`, and every number
is either above it or `0` itself (`admits_iff_top`).
-/

namespace Karst.SlidingWindow

/-- The highest number admitted so far, `0` before the first one. -/
def top (S : Finset ℕ) : ℕ := S.sup id

/-- When `c` may join the numbers `S` admitted so far. -/
def Admits (width : ℕ) (S : Finset ℕ) (c : ℕ) : Prop :=
  c ∉ S ∧ (S = ∅ ∨ top S < c ∨ top S - c < width)

instance (width : ℕ) (S : Finset ℕ) (c : ℕ) : Decidable (Admits width S c) :=
  inferInstanceAs (Decidable (_ ∧ _))

def advance (width : ℕ) (S : Finset ℕ) (c : ℕ) : Finset ℕ :=
  if Admits width S c then insert c S else S

theorem top_insert (S : Finset ℕ) (c : ℕ) : top (insert c S) = max c (top S) := by
  simp [top]

variable {S : Finset ℕ} {c : ℕ}

theorem le_top (h : c ∈ S) : c ≤ top S :=
  Finset.le_sup (f := id) h

theorem top_empty : top ∅ = 0 := rfl

theorem top_mem (h : S.Nonempty) : top S ∈ S := by
  obtain ⟨c, hc, he⟩ := Finset.exists_mem_eq_sup S h id
  rw [top, he]
  exact hc

variable {width : ℕ}

/-- **The empty window is not a special case.** -/
theorem admits_iff_top (hw : 0 < width) (S : Finset ℕ) (c : ℕ) :
    Admits width S c ↔ c ∉ S ∧ (top S < c ∨ top S - c < width) := by
  constructor
  · rintro ⟨hc, h | h⟩
    · subst h
      refine ⟨hc, ?_⟩
      rw [top_empty]
      omega
    · exact ⟨hc, h⟩
  · rintro ⟨hc, h⟩
    exact ⟨hc, Or.inr h⟩

theorem admits_of_top_lt (h : top S < c) : Admits width S c := by
  refine ⟨fun hc => ?_, Or.inr (Or.inl h)⟩
  have := le_top hc
  omega

theorem advance_of_admits (h : Admits width S c) : advance width S c = insert c S := if_pos h

theorem advance_of_not (h : ¬ Admits width S c) : advance width S c = S := if_neg h

end Karst.SlidingWindow
