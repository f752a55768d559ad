import Mathlib.Logic.Function.Basic
import Mathlib.Tactic.Common

/-!
# Arenas

Reference-counted cells shared between holders, by address.  An address is handed out once, so two
holders compare equal exactly when they hold the same allocation.
-/

namespace Karst

open Function

abbrev Ref := ℕ

/-- Every allocation made so far; addresses from `next` on are still to be handed out. -/
structure Arena (α : Type*) where
  next : Ref
  cell : Ref → α

namespace Arena

variable {α : Type*}

def empty (filler : α) : Arena α := ⟨0, fun _ => filler⟩

def alloc (a : Arena α) (x : α) : Arena α := ⟨a.next + 1, Function.update a.cell a.next x⟩

def write (a : Arena α) (r : Ref) (x : α) : Arena α := { a with cell := Function.update a.cell r x }

variable (a : Arena α) (x : α)

@[simp] theorem alloc_next : (a.alloc x).next = a.next + 1 := rfl

@[simp] theorem alloc_cell_self : (a.alloc x).cell a.next = x :=
  update_self ..

variable {r : Ref}

theorem alloc_cell_ne (h : r ≠ a.next) : (a.alloc x).cell r = a.cell r := update_of_ne h ..

theorem alloc_cell_lt (h : r < a.next) : (a.alloc x).cell r = a.cell r := a.alloc_cell_ne x (Nat.ne_of_lt h)

@[simp] theorem write_next (r : Ref) (x : α) : (a.write r x).next = a.next := rfl

@[simp] theorem write_cell_self (r : Ref) (x : α) : (a.write r x).cell r = x :=
  update_self ..

theorem write_cell_ne {q : Ref} (h : q ≠ r) : (a.write r x).cell q = a.cell q := update_of_ne h ..

@[simp] theorem write_cell (r : Ref) : a.write r (a.cell r) = a := by
  simp [write, update_eq_self]

@[simp] theorem write_write (r : Ref) (x y : α) : (a.write r x).write r y = a.write r y := by
  simp [write, update_idem]

/-- `b` is `a` later on: allocations are never given back, and what was allocated changed only as
`R` allows. -/
structure Extends (R : α → α → Prop) (a b : Arena α) : Prop where
  next_le : a.next ≤ b.next
  cell : ∀ r < a.next, R (a.cell r) (b.cell r)

variable {R : α → α → Prop} {a b c : Arena α}

theorem Extends.refl (hR : ∀ x, R x x) (a : Arena α) : Extends R a a :=
  ⟨Nat.le_refl _, fun _ _ => hR _⟩

theorem Extends.trans (hR : ∀ x y z, R x y → R y z → R x z) (hab : Extends R a b)
    (hbc : Extends R b c) : Extends R a c :=
  ⟨Nat.le_trans hab.next_le hbc.next_le,
    fun r hr => hR _ _ _ (hab.cell r hr) (hbc.cell r (Nat.lt_of_lt_of_le hr hab.next_le))⟩

theorem extends_alloc (hR : ∀ x, R x x) (a : Arena α) (x : α) : Extends R a (a.alloc x) := by
  refine ⟨Nat.le_succ _, fun r hr => ?_⟩
  rw [alloc_cell_lt a x hr]
  exact hR _

theorem extends_write (hR : ∀ x, R x x) (a : Arena α) {x : α} (h : R (a.cell r) x) :
    Extends R a (a.write r x) := by
  refine ⟨Nat.le_refl _, fun q _ => ?_⟩
  by_cases hq : q = r
  · subst hq
    rwa [write_cell_self]
  · rw [write_cell_ne a x hq]
    exact hR _

end Arena

end Karst
