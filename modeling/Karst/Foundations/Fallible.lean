import Mathlib

/-!
# Fallible computations

Parsers and key schedules return early on the first failure.  In `Except` that is `bind`, and
every proof about such a function starts by taking a successful run apart into its successful
steps (`bind_eq_ok`) or by putting one together (`ok_bind`).
-/

namespace Karst

open Except
open List hiding Vector

universe u v

variable {ε : Type u} {α γ : Type v}

def okOr (e : ε) : Option α → Except ε α
  | some a => .ok a
  | none => .error e

@[simp] theorem okOr_some (e : ε) (a : α) : okOr e (some a) = .ok a := rfl

@[simp] theorem okOr_none (e : ε) : okOr e (none : Option α) = .error e := rfl

variable {e : ε}

@[simp] theorem okOr_eq_ok {x : Option α} {a : α} : okOr e x = .ok a ↔ x = some a := by
  cases x <;> simp

@[simp] theorem ok_bind (a : α) (f : α → Except ε γ) : (ok a >>= f) = f a := rfl

@[simp] theorem error_bind (e : ε) (f : α → Except ε γ) : ((error e : Except ε α) >>= f) = .error e := rfl

variable {x : Except ε α}

/-- A run that succeeds succeeds step by step. -/
theorem bind_eq_ok {f : α → Except ε γ} {r : γ} : (x >>= f) = .ok r ↔ ∃ a, x = .ok a ∧ f a = .ok r := by
  cases x with
  | error e => simp
  | ok a => simp

theorem bind_eq_error {f : α → Except ε γ} :
    (x >>= f) = .error e ↔ x = .error e ∨ ∃ a, x = .ok a ∧ f a = .error e := by
  cases x with
  | error e => simp
  | ok a => simp

@[simp] theorem mapError_ok {ε' : Type u} (f : ε → ε') (a : α) : (ok a : Except ε α).mapError f = .ok a := rfl

@[simp] theorem mapError_eq_ok {ε' : Type u} {f : ε → ε'} {a : α} : x.mapError f = .ok a ↔ x = .ok a := by
  cases x <;> simp [Except.mapError]

theorem map_eq_ok {f : α → γ} {c : γ} : x.map f = .ok c ↔ ∃ a, x = .ok a ∧ f a = c := by
  cases x <;> simp [Except.map]

/-- A guard that lets a run continue. -/
theorem guard_eq_ok {p : Prop} [Decidable p] {r : α} :
    (if p then .error e else x) = .ok r ↔ ¬ p ∧ x = .ok r := by
  by_cases h : p <;> simp [h]

/-! ### Two computations that succeed alike -/

section

universe u'

variable {ε' : Type u'} {α' : Type v} {x : Except ε α'} {y : Except ε' α'}

/-- Both succeed, and with the same result, or neither does. -/
def SameOk (x : Except ε α') (y : Except ε' α') : Prop := ∀ a, x = .ok a ↔ y = .ok a

theorem SameOk.refl (x : Except ε α') : SameOk x x := fun _ => Iff.rfl

theorem sameOk_ok (a : α') : SameOk (.ok a : Except ε α') (.ok a : Except ε' α') := by
  intro a'
  rw [ok.injEq, ok.injEq]

theorem SameOk.of_and {P : α' → Prop} (h : ∀ a, x = .ok a ↔ y = .ok a ∧ P a)
    (hP : ∀ a, y = .ok a → P a) : SameOk x y := by
  intro a
  rw [h a]
  exact and_iff_left_of_imp (hP a)

theorem SameOk.bind (h : SameOk x y) {f : α' → Except ε γ} {g : α' → Except ε' γ}
    (hf : ∀ a, y = .ok a → SameOk (f a) (g a)) : SameOk (x >>= f) (y >>= g) := by
  intro r
  rw [bind_eq_ok, bind_eq_ok]
  refine exists_congr fun a => ?_
  rw [h a]
  exact and_congr_right fun ha => hf a ha r

@[simp] theorem sameOk_mapError_left {δ : Type u} {f : ε → δ} : SameOk (x.mapError f) y ↔ SameOk x y := by
  simp only [SameOk, mapError_eq_ok]

@[simp] theorem sameOk_mapError_right {δ : Type u'} {f : ε' → δ} : SameOk x (y.mapError f) ↔ SameOk x y := by
  simp only [SameOk, mapError_eq_ok]

theorem SameOk.guard {p q : Prop} [Decidable p] [Decidable q] (hpq : p ↔ q) {e' : ε'}
    (h : ¬ p → SameOk x y) : SameOk (if p then .error e else x) (if q then .error e' else y) := by
  intro a
  rw [guard_eq_ok, guard_eq_ok, ← hpq]
  exact and_congr_right fun hp => h hp a

end

section

universe w

variable {ι : Type w} {l : List ι}

/-- Check every item; the first failure is the loop's. -/
def checkAll (f : ι → Except ε Unit) : List ι → Except ε Unit
  | [] => .ok ()
  | x :: xs => f x >>= fun _ => checkAll f xs

theorem checkAll_eq_ok {f : ι → Except ε Unit} : checkAll f l = .ok () ↔ ∀ x ∈ l, f x = .ok () := by
  induction l with
  | nil => simp [checkAll]
  | cons x xs ih =>
    rw [checkAll, bind_eq_ok, forall_mem_cons, ← ih]
    exact ⟨fun ⟨⟨⟩, hx, hxs⟩ => ⟨hx, hxs⟩, fun ⟨hx, hxs⟩ => ⟨(), hx, hxs⟩⟩

/-- Append what every item contributes; the first failure is the loop's. -/
def collect (f : ι → Except ε (List γ)) : List ι → Except ε (List γ)
  | [] => .ok []
  | x :: xs => do
    let ys ← f x
    let zs ← collect f xs
    return ys ++ zs

variable {f : ι → Except ε (List γ)}

theorem exists_collect (h : ∀ x ∈ l, ∃ ys, f x = .ok ys) : ∃ out, collect f l = .ok out := by
  induction l with
  | nil => exact ⟨[], rfl⟩
  | cons x xs ih =>
    obtain ⟨ys, hys⟩ := h x mem_cons_self
    obtain ⟨zs, hzs⟩ := ih fun y hy => h y (mem_cons_of_mem x hy)
    exact ⟨ys ++ zs, by rw [collect, hys, ok_bind, hzs]; rfl⟩

theorem mem_collect {out : List γ} (h : collect f l = .ok out) {y : γ} :
    y ∈ out ↔ ∃ x ∈ l, ∃ ys, f x = .ok ys ∧ y ∈ ys := by
  induction l generalizing out with
  | nil =>
    obtain rfl := ok.inj h
    simp
  | cons x xs ih =>
    obtain ⟨ys, hys, h⟩ := bind_eq_ok.mp h
    obtain ⟨zs, hzs, h⟩ := bind_eq_ok.mp h
    obtain rfl := ok.inj h
    rw [mem_append, ih hzs]
    simp [hys]

theorem collect_ok_of_mem {out : List γ} (h : collect f l = .ok out) {x : ι} (hx : x ∈ l) :
    ∃ ys, f x = .ok ys := by
  induction l generalizing out with
  | nil => simp at hx
  | cons y l ih =>
    obtain ⟨ys, hys, h⟩ := bind_eq_ok.mp h
    obtain ⟨zs, hzs, -⟩ := bind_eq_ok.mp h
    rcases mem_cons.mp hx with rfl | hx
    · exact ⟨ys, hys⟩
    · exact ih hzs hx

theorem collect_spec {τ : Type*} {p : τ → ι → Prop} {q : τ → γ → Prop}
    (h : ∀ x ∈ l, ∃ ys, f x = .ok ys ∧ ∀ t, (∃ y ∈ ys, q t y) ↔ p t x) :
    ∃ out, collect f l = .ok out ∧ ∀ t, (∃ y ∈ out, q t y) ↔ ∃ x ∈ l, p t x := by
  induction l with
  | nil => exact ⟨[], rfl, by simp⟩
  | cons x xs ih =>
    obtain ⟨ys, hys, hx⟩ := h x mem_cons_self
    obtain ⟨zs, hzs, hxs⟩ := ih fun y hy => h y (mem_cons_of_mem x hy)
    refine ⟨ys ++ zs, by rw [collect, hys, ok_bind, hzs]; rfl, fun t => ?_⟩
    rw [exists_mem_cons_iff, ← hx t, ← hxs t]
    simp only [mem_append, or_and_right, exists_or]

end

end Karst
