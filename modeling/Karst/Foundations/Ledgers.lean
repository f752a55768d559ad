import Mathlib.Algebra.BigOperators.Group.List.Basic
import Mathlib.Algebra.Order.BigOperators.Group.List
import Mathlib.Tactic.Common

/-!
# Ledgers

A budget and the amounts that are held against it.
No move oversubscribes the budget (`Ledger.Move.within`).
-/

namespace Karst

structure Ledger (M : Type*) where
  budget : M
  held : List M

namespace Ledger

variable {M : Type*} [AddCommMonoid M] [PartialOrder M] [IsOrderedAddMonoid M]

def committed (l : Ledger M) : M := l.held.sum

def Within (l : Ledger M) : Prop := l.committed ≤ l.budget

inductive Move : Ledger M → Ledger M → Prop
  | keep (l : Ledger M) : Move l l
  | commit {l : Ledger M} {n : M} (fits : l.committed + n ≤ l.budget) :
      Move l ⟨l.budget, l.held ++ [n]⟩
  | release {budget n m : M} {l₁ l₂ : List M} (le : m ≤ n) :
      Move ⟨budget, l₁ ++ n :: l₂⟩ ⟨budget, l₁ ++ m :: l₂⟩
  | rebudget {l : Ledger M} {budget : M} (fits : l.committed ≤ budget) : Move l ⟨budget, l.held⟩

theorem Move.within {l l' : Ledger M} (hmove : Move l l') (h : l.Within) : l'.Within := by
  cases hmove with
  | keep => exact h
  | commit fits =>
    show (l.held ++ [_]).sum ≤ l.budget
    rw [List.sum_append, List.sum_singleton]
    exact fits
  | @release budget n m l₁ l₂ le =>
    have hle : (l₁ ++ m :: l₂).sum ≤ (l₁ ++ n :: l₂).sum := by
      rw [List.sum_append, List.sum_append, List.sum_cons, List.sum_cons]
      gcongr
    exact hle.trans h
  | rebudget fits => exact fits

end Ledger

end Karst
