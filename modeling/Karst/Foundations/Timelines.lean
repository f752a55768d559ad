import Mathlib

/-!
# Timelines

Quantities that change at whole instants, and lists of pieces that cut an interval up.
The total of a quantity over an interval is the sum over its pieces (`Tiles.sum_eq`).
-/

namespace Karst.Timelines

open List hiding Vector

/-! ### Totals -/

section

variable {g g' : ℤ → ℤ} {a b c v : ℤ}

noncomputable def integral (g : ℤ → ℤ) (a b : ℤ) : ℤ := ∑ t ∈ Finset.Ico a b, g t

@[simp] theorem integral_self (g : ℤ → ℤ) (a : ℤ) : integral g a a = 0 := by
  rw [integral, Finset.Ico_self, Finset.sum_empty]

theorem integral_add (g : ℤ → ℤ) (hab : a ≤ b) (hbc : b ≤ c) :
    integral g a b + integral g b c = integral g a c := by
  rw [integral, integral, integral, ← Finset.sum_union (Finset.Ico_disjoint_Ico_consecutive a b c),
    Finset.Ico_union_Ico_eq_Ico hab hbc]

theorem integral_congr (h : ∀ t, a ≤ t → t < b → g t = g' t) : integral g a b = integral g' a b := by
  refine Finset.sum_congr rfl fun t ht => ?_
  rw [Finset.mem_Ico] at ht
  exact h t ht.1 ht.2

theorem integral_of_const (hab : a ≤ b) (h : ∀ t, a ≤ t → t < b → g t = v) :
    integral g a b = (b - a) * v := by
  have hconst : integral g a b = integral (fun _ => v) a b := integral_congr h
  rw [hconst, integral, Finset.sum_const, Int.card_Ico, nsmul_eq_mul,
    Int.toNat_of_nonneg (Int.sub_nonneg_of_le hab)]

theorem integral_nonneg (h : ∀ t, a ≤ t → t < b → 0 ≤ g t) : 0 ≤ integral g a b := by
  refine Finset.sum_nonneg fun t ht => ?_
  rw [Finset.mem_Ico] at ht
  exact h t ht.1 ht.2

end

/-! ### Cuts -/

theorem exists_sorted_cuts {a b : ℤ} {cuts : List ℤ} (ha : a ∈ cuts) (hb : b ∈ cuts)
    (hwithin : ∀ v ∈ cuts, a ≤ v ∧ v ≤ b) :
    ∃ rest, cuts.insertionSort (· ≤ ·) = a :: rest ∧ (a :: rest).Pairwise (· ≤ ·)
      ∧ (a :: rest).getLast (cons_ne_nil a rest) = b ∧ (∀ v, v ∈ a :: rest ↔ v ∈ cuts) := by
  have hmem (v : ℤ) : v ∈ cuts.insertionSort (· ≤ ·) ↔ v ∈ cuts :=
    (perm_insertionSort (· ≤ ·) cuts).mem_iff
  have hpairwise := pairwise_insertionSort (· ≤ ·) cuts
  obtain ⟨x, rest, hlist⟩ := exists_cons_of_ne_nil (ne_nil_of_mem ((hmem a).mpr ha))
  rw [hlist] at hmem hpairwise
  have hfirst : x = a := by
    have hx := hwithin x ((hmem x).mp mem_cons_self)
    rcases mem_cons.mp ((hmem a).mpr ha) with hs | hs
    · exact hs.symm
    · exact le_antisymm ((pairwise_cons.mp hpairwise).1 a hs) hx.1
  subst hfirst
  refine ⟨rest, hlist, hpairwise, le_antisymm ?_ ?_, hmem⟩
  · exact (hwithin _ ((hmem _).mp (getLast_mem (cons_ne_nil x rest)))).2
  · exact hpairwise.rel_getLast ((hmem b).mpr hb)

/-! ### Pieces -/

section

variable {ι β : Type*} {lo hi : ι → ℤ} {value : ι → β} {f : ℤ → β} {a b c : ℤ} {is js : List ι}

/-- The pieces follow on one another, from `a` to `b`, and none is empty. -/
def Tiles (lo hi : ι → ℤ) : ℤ → List ι → ℤ → Prop
  | a, [], b => a = b
  | a, i :: is, b => lo i = a ∧ a < hi i ∧ Tiles lo hi (hi i) is b

theorem Tiles.le (h : Tiles lo hi a is b) : a ≤ b := by
  induction is generalizing a with
  | nil => exact le_of_eq h
  | cons i is ih => exact h.2.1.le.trans (ih h.2.2)

theorem tiles_append : Tiles lo hi a (is ++ js) c ↔ ∃ b, Tiles lo hi a is b ∧ Tiles lo hi b js c := by
  induction is generalizing a with
  | nil =>
    show Tiles lo hi a js c ↔ ∃ b, a = b ∧ Tiles lo hi b js c
    rw [exists_eq_left']
  | cons i is ih =>
    show lo i = a ∧ a < hi i ∧ Tiles lo hi (hi i) (is ++ js) c
      ↔ ∃ b, (lo i = a ∧ a < hi i ∧ Tiles lo hi (hi i) is b) ∧ Tiles lo hi b js c
    rw [ih]
    constructor
    · intro h
      obtain ⟨hlo, hlt, b, his, hjs⟩ := h
      exact ⟨b, ⟨hlo, hlt, his⟩, hjs⟩
    · intro h
      obtain ⟨b, ⟨hlo, hlt, his⟩, hjs⟩ := h
      exact ⟨hlo, hlt, b, his, hjs⟩

theorem tiles_concat {i : ι} :
    Tiles lo hi a (is ++ [i]) c ↔ Tiles lo hi a is (lo i) ∧ lo i < hi i ∧ hi i = c := by
  rw [tiles_append]
  constructor
  · intro h
    obtain ⟨b, his, rfl, hlt, hc⟩ := h
    exact ⟨his, hlt, hc⟩
  · intro h
    obtain ⟨his, hlt, hc⟩ := h
    exact ⟨lo i, his, rfl, hlt, hc⟩

/-- On each piece the quantity is what the piece says. -/
def Shows (lo hi : ι → ℤ) (value : ι → β) (f : ℤ → β) (is : List ι) : Prop :=
  ∀ i ∈ is, ∀ t, lo i ≤ t → t < hi i → f t = value i

theorem shows_concat {i : ι} : Shows lo hi value f (is ++ [i])
      ↔ Shows lo hi value f is ∧ ∀ t, lo i ≤ t → t < hi i → f t = value i := by
  constructor
  · intro h
    exact ⟨fun j hj => h j (mem_append_left _ hj), h i (by simp)⟩
  · intro h j hj
    rcases mem_append.mp hj with hj | hj
    · exact h.1 j hj
    · rw [mem_singleton.mp hj]
      exact h.2

theorem Tiles.sum_eq {g : ℤ → ℤ} {amount : ι → ℤ} (h : Tiles lo hi a is b)
    (hshows : Shows lo hi amount g is) : (is.map fun i => amount i * (hi i - lo i)).sum = integral g a b := by
  induction is generalizing a with
  | nil =>
    obtain rfl : a = b := h
    rw [integral_self]
    rfl
  | cons i is ih =>
    obtain ⟨rfl, hlt, hrest⟩ := h
    rw [map_cons, sum_cons, ih hrest fun j hj => hshows j (mem_cons_of_mem i hj),
      ← integral_add g hlt.le hrest.le, integral_of_const hlt.le (hshows i mem_cons_self), mul_comm]

theorem Tiles.bounds (h : Tiles lo hi a is b) {i : ι} (hmem : i ∈ is) :
    a ≤ lo i ∧ lo i < hi i ∧ hi i ≤ b := by
  induction is generalizing a with
  | nil => cases hmem
  | cons j is ih =>
    obtain ⟨rfl, hlt, hrest⟩ := h
    rcases mem_cons.mp hmem with rfl | hmem
    · exact ⟨le_rfl, hlt, hrest.le⟩
    · obtain ⟨hlo, hpiece, hhi⟩ := ih hrest hmem
      exact ⟨hlt.le.trans hlo, hpiece, hhi⟩

end

end Karst.Timelines
