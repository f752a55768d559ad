import Mathlib.Data.List.Sort
import Mathlib.Data.List.Nodup
import Mathlib.Tactic.Common

/-!
# Ranked lists

A list sorted by rank, the highest first, is searched for the first element that passes a test.
What is found has the highest rank among the elements that pass; and where no two of them share a
rank, it is the only such element, so that the search does not depend on how the list was ordered
before it was sorted.
-/

namespace Karst

section

variable {α β : Type*} [LinearOrder β] {rank : α → β} {test : α → Bool} {l : List α} {a : α}

def Ranked (rank : α → β) (l : List α) : Prop := l.Pairwise fun a b => rank b ≤ rank a

/-- An element that passes, and that none of those that pass outranks. -/
def IsBest (rank : α → β) (test : α → Bool) (l : List α) (a : α) : Prop :=
  a ∈ l ∧ test a = true ∧ ∀ b ∈ l, test b = true → rank b ≤ rank a

instance [DecidableEq α] : Decidable (IsBest rank test l a) :=
  inferInstanceAs (Decidable (a ∈ l ∧ test a = true ∧ ∀ b ∈ l, test b = true → rank b ≤ rank a))

theorem IsBest.of_perm {l' : List α} (h : IsBest rank test l a) (hperm : l'.Perm l) : IsBest rank test l' a :=
  ⟨hperm.mem_iff.mpr h.1, h.2.1, fun b hb => h.2.2 b (hperm.mem_iff.mp hb)⟩

theorem of_find?_eq_some (hl : Ranked rank l) (h : l.find? test = some a) : IsBest rank test l a := by
  obtain ⟨ha, front, back, rfl, hfront⟩ := List.find?_eq_some_iff_append.mp h
  refine ⟨by simp, ha, ?_⟩
  intro b hb htest
  -- Nothing in front of the match passes, and what is behind it ranks no higher.
  have hafter := (List.pairwise_cons.mp (List.pairwise_append.mp hl).2.1).1
  rcases List.mem_append.mp hb with hb | hb
  · have hnot := hfront b hb
    rw [htest] at hnot
    exact absurd hnot (by decide)
  · rcases List.mem_cons.mp hb with hb | hb
    · rw [hb]
    · exact hafter b hb

theorem find?_eq_some_iff_best (hl : Ranked rank l)
    (hinj : ∀ a ∈ l, ∀ b ∈ l, test a = true → test b = true → rank a = rank b → a = b) :
    l.find? test = some a ↔ IsBest rank test l a := by
  constructor
  · intro h
    exact of_find?_eq_some hl h
  · intro hbest
    cases hfind : l.find? test with
    | none => exact absurd hbest.2.1 (List.find?_eq_none.mp hfind a hbest.1)
    | some b =>
      have hb := of_find?_eq_some hl hfind
      have hrank : rank b = rank a :=
        le_antisymm (hbest.2.2 b hb.1 hb.2.1) (hb.2.2 a hbest.1 hbest.2.1)
      rw [hinj b hb.1 a hbest.1 hb.2.1 hbest.2.1 hrank]

end

end Karst
